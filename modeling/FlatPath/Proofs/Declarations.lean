import Mathlib
import FlatPath.Bindings.Document
import FlatPath.Proofs.JsonText
import FlatPath.Proofs.ZoneClasses

/-!
Bindings and their documents. Declared one after the other, a name keeps its first type; in a
document the last one counts, at the place of the first. So a document makes the bindings that its
members declare exactly if no name ends with another type than it began with; and that of bindings,
which has each name once, makes the same bindings again.
-/

namespace FlatPath

theorem VarType.ofName?_name (t : VarType) : ofName? t.name = some t := by
  cases t <;> rfl

namespace Bindings

section Entries

variable {α : Type} {entries entries' : List (String × α)}

theorem lookup_eq_none_of_not_mem {name : String} (missing : name ∉ entries.map Prod.fst) :
    entries.lookup name = none := by
  refine List.lookup_eq_none_iff.2 fun entry mem => bne_iff_ne.2 ?_
  rintro rfl
  exact missing (List.mem_map_of_mem mem)

/-- Entries with distinct names are the same if the names are, in the same order, and each is
looked up alike. -/
theorem entries_ext (names : entries.map Prod.fst = entries'.map Prod.fst)
    (distinct : (entries.map Prod.fst).Nodup)
    (same : ∀ name, entries.lookup name = entries'.lookup name) : entries = entries' := by
  induction entries generalizing entries' with
  | nil => exact (List.map_eq_nil_iff.1 names.symm).symm
  | cons entry entries ih =>
      obtain ⟨name, value⟩ := entry
      cases entries' with
      | nil => cases names
      | cons entry' entries' =>
          obtain ⟨name', value'⟩ := entry'
          obtain ⟨rfl, rest⟩ := List.cons.inj names
          obtain ⟨missing, distinct⟩ := List.nodup_cons.1 distinct
          obtain rfl : value = value' := by simpa using same name
          refine congrArg _ (ih rest distinct fun other => ?_)
          by_cases h : other = name
          · subst h
            rw [lookup_eq_none_of_not_mem missing, lookup_eq_none_of_not_mem (rest ▸ missing)]
          · have away : (other == name) = false := beq_false_of_ne h
            simpa only [List.lookup_cons, away] using same other

end Entries

/-- The names in the order of their first declarations. -/
def names (b : Bindings) : List String :=
  b.entries.map Prod.fst

theorem eq_of_entries {b b' : Bindings} (h : b.entries = b'.entries) : b = b' := by
  cases b
  cases b'
  cases h
  rfl

theorem eq_of_get? {b b' : Bindings} (names : b.names = b'.names)
    (same : ∀ name, b.get? name = b'.get? name) : b = b' :=
  eq_of_entries (entries_ext names b.distinct same)

theorem declares_iff {b : Bindings} {name : String} : b.declares name = true ↔ name ∈ b.names :=
  List.contains_iff_mem

theorem names_bind (b : Bindings) (name : String) (type : VarType) :
    (b.bind name type).names = if name ∈ b.names then b.names else b.names ++ [name] := by
  rw [bind, insert]
  split
  · next declared => rw [if_pos (declares_iff.1 declared)]
  · next fresh =>
      rw [if_neg (mt declares_iff.2 fresh)]
      exact List.map_append

/-- A name stays where it was declared first. -/
theorem names_assign (b : Bindings) (name : String) (type : VarType) :
    (b.assign name type).names = if name ∈ b.names then b.names else b.names ++ [name] := by
  rw [assign]
  split
  · next declared =>
      rw [if_pos (declares_iff.1 declared)]
      simp [names, Function.comp_def]
  · exact names_bind b name type

theorem lookup_replaced (entries : List (String × VarType)) (name : String) (type : VarType)
    (name' : String) :
    (entries.map fun (n, t) => (n, if n = name then type else t)).lookup name' =
      (entries.lookup name').map fun t => if name' = name then type else t := by
  induction entries with
  | nil => rfl
  | cons entry entries ih =>
      rw [List.map_cons, List.lookup_cons, List.lookup_cons, ih]
      cases same : name' == entry.1 with
      | true => simp [eq_of_beq same]
      | false => rfl

/-- The type that was given last counts. -/
theorem get?_assign (b : Bindings) (name : String) (type : VarType) (name' : String) :
    (b.assign name type).get? name' = ([(name, type)].lookup name').or (b.get? name') := by
  have found := isSome_get? b name
  rw [assign, List.lookup_cons, List.lookup_nil]
  split
  · next declared =>
      rw [declared, Option.isSome_iff_exists] at found
      obtain ⟨bound, found⟩ := found
      rw [get?, lookup_replaced]
      cases same : name' == name with
      | true =>
          obtain rfl := eq_of_beq same
          rw [get?] at found
          simp [found]
      | false => simp [ne_of_beq_false same, get?]
  · next fresh =>
      rw [Bool.not_eq_true] at fresh
      rw [fresh, Option.isSome_eq_false_iff, Option.isNone_iff_eq_none] at found
      rw [get?_bind, List.lookup_cons, List.lookup_nil]
      cases same : name' == name with
      | true =>
          rw [eq_of_beq same, found]
          rfl
      | false => simp

/-- The declarations one after the other, each of which may change the type of a name. -/
def ofAssignments (declared : List (String × VarType)) : Bindings :=
  declared.foldl (fun b (name, type) => b.assign name type) empty

/-- The last declaration of a name counts. -/
theorem get?_ofAssignments (declared : List (String × VarType)) (name : String) :
    (ofAssignments declared).get? name = declared.reverse.lookup name := by
  have behind (b : Bindings) :
      (declared.foldl (fun b (name, type) => b.assign name type) b).get? name =
        (declared.reverse.lookup name).or (b.get? name) := by
    induction declared generalizing b with
    | nil => rfl
    | cons d declared ih =>
        rw [List.foldl_cons, ih, get?_assign, List.reverse_cons, List.lookup_append,
          Option.or_assoc]
  rw [ofAssignments, behind]
  exact Option.or_none

theorem names_ofAssignments (declared : List (String × VarType)) :
    (ofAssignments declared).names = (ofList declared).names := by
  have alike (b b' : Bindings) (same : b.names = b'.names) :
      (declared.foldl (fun b (name, type) => b.assign name type) b).names =
        (declared.foldl (fun b (name, type) => b.bind name type) b').names := by
    induction declared generalizing b b' with
    | nil => exact same
    | cons d declared ih =>
        rw [List.foldl_cons, List.foldl_cons]
        exact ih _ _ (by rw [names_assign, names_bind, same])
  exact alike _ _ rfl

/-- Declarations with distinct names are kept as they are. -/
theorem ofAssignments_entries (b : Bindings) : ofAssignments b.entries = b := by
  have appended {b : Bindings} {entries : List (String × VarType)}
      (distinct : ((b.entries ++ entries).map Prod.fst).Nodup) :
      (entries.foldl (fun b (name, type) => b.assign name type) b).entries =
        b.entries ++ entries := by
    induction entries generalizing b with
    | nil => simp
    | cons entry entries ih =>
        have step : (b.assign entry.1 entry.2).entries = b.entries ++ [entry] := by
          have fresh : ¬ b.declares entry.1 = true := by
            rw [List.map_append, List.nodup_append] at distinct
            exact fun declared => distinct.2.2 _ (declares_iff.1 declared) _ (by simp) rfl
          rw [assign, if_neg fresh, bind, insert, dif_neg fresh]
        rw [List.foldl_cons, ih (by rw [step]; simpa using distinct), step, List.append_assoc]
        rfl
  exact eq_of_entries (appended (b := empty) b.distinct)

/-- The document with these declarations for its members. -/
def documentOf (declared : List (String × VarType)) : Json :=
  .object (declared.map fun (name, type) => (name, .string type.name))

theorem ofJson?_documentOf (declared : List (String × VarType)) :
    ofJson? (documentOf declared) = some (ofAssignments declared) := by
  have members (b : Bindings) :
      (declared.map fun (name, type) => (name, Json.string type.name)).foldlM
        (fun b m => (VarType.ofJson? m.2).map (b.assign m.1)) b =
          some (declared.foldl (fun b (name, type) => b.assign name type) b) := by
    induction declared generalizing b with
    | nil => rfl
    | cons d declared ih =>
        have read : VarType.ofJson? (.string d.2.name) = some d.2 := VarType.ofName?_name d.2
        rw [List.map_cons, List.foldlM_cons, List.foldl_cons, ← ih]
        simp only [read]
        rfl
  exact members empty

theorem ofDocument?_documentOf (declared : List (String × VarType)) :
    ofDocument? (documentOf declared).compact.toUTF8 = some (ofAssignments declared) := by
  have plain : (documentOf declared).Plain :=
    .object (List.forall_mem_map.2 fun d _ => .string d.2.name)
  rw [ofDocument?, Json.read?_compact plain, Option.bind_eq_bind, Option.bind_some,
    ofJson?_documentOf]

/-- The document with any declarations for its members is read. It makes bindings for the names that
the declarations bind one after the other, in the same order, but gives each the last type instead
of the first; so both are the same exactly if these types are, for every name. -/
theorem ofDocument?_declarations (declared : List (String × VarType)) :
    ∃ b, ofDocument? (documentOf declared).compact.toUTF8 = some b ∧
      b.names = (ofList declared).names ∧
      (∀ name, (ofList declared).get? name = declared.lookup name ∧
        b.get? name = declared.reverse.lookup name) ∧
      (b = ofList declared ↔
        ∀ name, declared.lookup name = declared.reverse.lookup name) := by
  have first := get?_ofList declared
  have last := get?_ofAssignments declared
  have names := names_ofAssignments declared
  refine ⟨_, ofDocument?_documentOf declared, names, fun name => ⟨first name, last name⟩,
    fun same name => ?_, fun alike => eq_of_get? names fun name => ?_⟩
  · rw [← first, ← same, last]
  · rw [last, first, alike]

/-- Declared as a date and then as a time with a zone, a variable is a date, but not in a
document. -/
theorem ofDocument?_redeclared :
    let declared : List (String × VarType) := [("x", .date), ("x", .timeTz)]
    (ofList declared).get? "x" = some .date ∧
      ∃ b, ofDocument? (documentOf declared).compact.toUTF8 = some b ∧
        b.get? "x" = some .timeTz ∧ b ≠ ofList declared := by
  intro declared
  refine ⟨by decide, _, ofDocument?_documentOf declared, by decide, fun same => ?_⟩
  have type := congrArg (fun b => b.get? "x") same
  exact absurd type (by decide)

/-- Bindings are read back from the text of their document, whatever their names are. -/
theorem ofDocument?_toJson (b : Bindings) : ofDocument? b.toJson.compact.toUTF8 = some b := by
  have read := ofDocument?_documentOf b.entries
  rwa [ofAssignments_entries] at read

end Bindings

end FlatPath
