import Mathlib
import FlatPath.Expr
import FlatPath.Limits

/-!
Operands of an item, whatever the item is made of. An item is its skeleton together with the
contents of its slots; what holds of an expression is proved from what holds of the operands of its
first item and of the rest of its chain.
-/

namespace FlatPath

def Slot.map {σ σ' : Type} (f : σ → σ') (s : Slot σ) : Slot σ' :=
  ⟨s.role, s.required, f s.content⟩

namespace Item

variable {τ τ' τ'' ρ ρ' ρ'' ο ο' ο'' σ σ' : Type}

theorem map_map (text : τ → τ') (req : ρ → ρ') (opt : ο → ο') (text' : τ' → τ'') (req' : ρ' → ρ'')
    (opt' : ο' → ο'') (x : Item τ ρ ο) :
    (x.map text req opt).map text' req' opt' =
      x.map (text' ∘ text) (req' ∘ req) (opt' ∘ opt) := by
  cases x <;> simp [map]

theorem pairSlots_map (first second : Nat → Role) (required : Bool) (f : σ → σ')
    (ps : List (σ × σ)) (i : Nat) :
    pairSlots first second required i (ps.map fun (a, b) => (f a, f b)) =
      (pairSlots first second required i ps).map (Slot.map f) := by
  induction ps generalizing i with
  | nil => rfl
  | cons p ps ih => simp [pairSlots, Slot.map, ih]

theorem elementSlots_map (f : σ → σ') (es : List σ) (i : Nat) :
    elementSlots i (es.map f) = (elementSlots i es).map (Slot.map f) := by
  induction es generalizing i with
  | nil => rfl
  | cons e es ih => simp [elementSlots, Slot.map, ih]

theorem contents_pairSlots (first second : Nat → Role) (required : Bool) (ps : List (σ × σ))
    (i : Nat) :
    (pairSlots first second required i ps).map Slot.content = ps.flatMap fun (a, b) => [a, b] := by
  induction ps generalizing i with
  | nil => rfl
  | cons p ps ih => simp [pairSlots, ih]

theorem contents_elementSlots (es : List σ) (i : Nat) :
    (elementSlots i es).map Slot.content = es := by
  induction es generalizing i with
  | nil => rfl
  | cons e es ih => simp [elementSlots, ih]

theorem length_pairSlots (first second : Nat → Role) (required : Bool) (ps : List (σ × σ))
    (i : Nat) : (pairSlots first second required i ps).length = 2 * ps.length := by
  induction ps generalizing i with
  | nil => rfl
  | cons p ps ih => simp [pairSlots, ih]; omega

theorem length_elementSlots (es : List σ) (i : Nat) : (elementSlots i es).length = es.length := by
  rw [← List.length_map, contents_elementSlots]

theorem slots_map (text : τ → τ') (f : σ → σ') (x : Item τ σ σ) :
    (x.map text f f).slots = x.slots.map (Slot.map f) := by
  cases x <;> simp [map, slots, Slot.map, pairSlots_map, elementSlots_map]

/-- The operands without their required or optional character. -/
def operandSlots (x : Item τ σ (Option σ)) : List (Slot (Option σ)) :=
  (x.map id some id).slots

@[simp] theorem operandSlots_binary (op : BinaryOp) (l r : σ) :
    (binary op l r : Item τ σ (Option σ)).operandSlots =
      [⟨.left, true, some l⟩, ⟨.right, true, some r⟩] := rfl

@[simp] theorem operandSlots_unary (op : UnaryOp) (a : σ) :
    (unary op a : Item τ σ (Option σ)).operandSlots = [⟨.argument, true, some a⟩] := rfl

@[simp] theorem operandSlots_likeRegex (e : σ) (p : τ) (f : RegexFlags) :
    (likeRegex e p f : Item τ σ (Option σ)).operandSlots = [⟨.operand, true, some e⟩] := rfl

@[simp] theorem operandSlots_datetime (o : Option σ) :
    (datetime o : Item τ σ (Option σ)).operandSlots = [⟨.argument, false, o⟩] := rfl

@[simp] theorem operandSlots_array (o : Option σ) :
    (array o : Item τ σ (Option σ)).operandSlots = [⟨.argument, false, o⟩] := rfl

@[simp] theorem length_operandSlots_indexArray (ss : List (σ × Option σ)) :
    (indexArray ss : Item τ σ (Option σ)).operandSlots.length = 2 * ss.length := by
  simp [operandSlots, map, slots, length_pairSlots]

@[simp] theorem length_operandSlots_sequence (es : List σ) :
    (sequence es : Item τ σ (Option σ)).operandSlots.length = es.length := by
  simp [operandSlots, map, slots, length_elementSlots]

@[simp] theorem length_operandSlots_object (fs : List (σ × σ)) :
    (object fs : Item τ σ (Option σ)).operandSlots.length = 2 * fs.length := by
  simp [operandSlots, map, slots, length_pairSlots]

/-- The operands that are there, in slot order. -/
def operands (x : Item τ σ (Option σ)) : List σ :=
  x.operandSlots.filterMap Slot.content

theorem operands_eq_flatMap (x : Item τ σ (Option σ)) :
    x.operands = (x.operandSlots.map Slot.content).flatMap Option.toList := by
  rw [operands, List.filterMap_eq_flatMap_toList, List.flatMap_map]

theorem mem_operands {x : Item τ σ (Option σ)} {e : σ} :
    e ∈ x.operands ↔ some e ∈ x.operandSlots.map Slot.content := by
  rw [operands, List.mem_filterMap, List.mem_map]

/-- The operands are what the slots hold. -/
theorem mem_operands_iff_slot {x : Item τ σ (Option σ)} {e : σ} :
    e ∈ x.operands ↔ ∃ s ∈ x.operandSlots, s.content = some e :=
  List.mem_filterMap

@[simp] theorem operands_binary (op : BinaryOp) (l r : σ) :
    (binary op l r : Item τ σ (Option σ)).operands = [l, r] := rfl

@[simp] theorem operands_unary (op : UnaryOp) (a : σ) :
    (unary op a : Item τ σ (Option σ)).operands = [a] := rfl

@[simp] theorem operands_likeRegex (e : σ) (p : τ) (f : RegexFlags) :
    (likeRegex e p f : Item τ σ (Option σ)).operands = [e] := rfl

@[simp] theorem operands_datetime (o : Option σ) :
    (datetime o : Item τ σ (Option σ)).operands = o.toList := by
  cases o <;> rfl

@[simp] theorem operands_array (o : Option σ) :
    (array o : Item τ σ (Option σ)).operands = o.toList := by
  cases o <;> rfl

@[simp] theorem operands_indexArray (ss : List (σ × Option σ)) :
    (indexArray ss : Item τ σ (Option σ)).operands = ss.flatMap fun (a, b) => a :: b.toList := by
  simp [operands_eq_flatMap, operandSlots, map, slots, contents_pairSlots, List.flatMap_map,
    List.flatMap_assoc]

@[simp] theorem operands_sequence (es : List σ) :
    (sequence es : Item τ σ (Option σ)).operands = es := by
  simp [operands_eq_flatMap, operandSlots, map, slots, contents_elementSlots, List.flatMap_map]

@[simp] theorem operands_object (fs : List (σ × σ)) :
    (object fs : Item τ σ (Option σ)).operands = fs.flatMap fun (k, v) => [k, v] := by
  simp [operands_eq_flatMap, operandSlots, map, slots, contents_pairSlots, List.flatMap_map,
    List.flatMap_assoc]

theorem forall_operands_indexArray {P : σ → Prop} {ss : List (σ × Option σ)}
    (h : ∀ e ∈ (indexArray ss : Item τ σ (Option σ)).operands, P e) :
    ∀ s ∈ ss, P s.1 ∧ ∀ e ∈ s.2, P e := by
  intro s hs
  have part (e : σ) (he : e ∈ s.1 :: s.2.toList) : P e :=
    h e (by simpa using ⟨s.1, s.2, hs, by simpa using he⟩)
  exact ⟨part _ (by simp), fun e he => part e (by simp_all)⟩

theorem forall_operands_object {P : σ → Prop} {fs : List (σ × σ)}
    (h : ∀ e ∈ (object fs : Item τ σ (Option σ)).operands, P e) :
    ∀ f ∈ fs, P f.1 ∧ P f.2 := by
  intro f hf
  have part (e : σ) (he : e = f.1 ∨ e = f.2) : P e :=
    h e (by simpa using ⟨f.1, f.2, hf, he⟩)
  exact ⟨part _ (.inl rfl), part _ (.inr rfl)⟩

/-- What is left of an item without its operands. -/
def skeleton (x : Item τ ρ ο) : Item τ Unit Unit :=
  x.map id (fun _ => ()) (fun _ => ())

theorem operandSlots_map (text : τ → τ') (f : σ → σ') (x : Item τ σ (Option σ)) :
    (x.map text f (Option.map f)).operandSlots = x.operandSlots.map (Slot.map (Option.map f)) := by
  simp only [operandSlots, ← slots_map text, map_map]
  rfl

theorem operands_map (text : τ → τ') (f : σ → σ') (x : Item τ σ (Option σ)) :
    (x.map text f (Option.map f)).operands = x.operands.map f := by
  simp only [operands, operandSlots_map, List.filterMap_map, List.map_filterMap]
  rfl

private theorem pairs_ext {first second : Nat → Role} {required : Bool} {ps qs : List (σ × σ)}
    {i j : Nat} (length : ps.length = qs.length)
    (contents : (pairSlots first second required i ps).map Slot.content =
      (pairSlots first second required j qs).map Slot.content) : ps = qs := by
  induction ps generalizing i j qs with
  | nil => simpa using length.symm
  | cons p ps ih =>
      cases qs with
      | nil => simp at length
      | cons q qs =>
          simp only [pairSlots, List.map_cons, List.cons.injEq] at contents
          obtain ⟨ha, hb, rest⟩ := contents
          rw [Prod.ext ha hb, ih (by simpa using length) rest]

private theorem elements_ext {es fs : List σ} {i j : Nat}
    (contents : (elementSlots i es).map Slot.content = (elementSlots j fs).map Slot.content) :
    es = fs := by
  induction es generalizing i j fs with
  | nil => cases fs <;> simp [elementSlots] at contents ⊢
  | cons e es ih =>
      cases fs with
      | nil => simp [elementSlots] at contents
      | cons f fs =>
          simp only [elementSlots, List.map_cons, List.cons.injEq] at contents
          rw [contents.1, ih contents.2]

/-- An item is its skeleton and the contents of its slots. -/
theorem ext_slots {x y : Item τ σ σ} (skeletons : x.skeleton = y.skeleton)
    (contents : x.slots.map Slot.content = y.slots.map Slot.content) : x = y := by
  cases x <;> cases y <;> simp only [skeleton, map, reduceCtorEq] at skeletons <;>
    simp_all [slots]
  case indexArray => exact pairs_ext skeletons contents
  case sequence => exact elements_ext contents
  case object => exact pairs_ext skeletons contents

/-- Works out texts and operands one by one; nothing if one of them comes to nothing. -/
def mapM (text : τ → Option τ') (req : ρ → Option ρ') (opt : ο → Option ο') :
    Item τ ρ ο → Option (Item τ' ρ' ο')
  | null => some null
  | string s => (text s).map string
  | numeric s => (text s).map numeric
  | bool b => some (bool b)
  | var s => (text s).map var
  | key s => (text s).map key
  | root => some root
  | current => some current
  | last => some last
  | anyArray => some anyArray
  | anyKey => some anyKey
  | any l => some (any l)
  | indexArray ss => (ss.mapM fun (a, b) => do return (← req a, ← opt b)).map indexArray
  | binary op l r => do return binary op (← req l) (← req r)
  | unary op a => (req a).map (unary op)
  | likeRegex e p f => do return likeRegex (← req e) (← text p) f
  | method m => some (method m)
  | datetime o => (opt o).map datetime
  | sequence es => (es.mapM req).map sequence
  | array o => (opt o).map array
  | object fs => (fs.mapM fun (k, v) => do return (← req k, ← req v)).map object

theorem mapM_map (text : τ → τ') (req : ρ → ρ') (opt : ο → ο') (text' : τ' → Option τ'')
    (req' : ρ' → Option ρ'') (opt' : ο' → Option ο'') (x : Item τ ρ ο) :
    (x.map text req opt).mapM text' req' opt' =
      x.mapM (text' ∘ text) (req' ∘ req) (opt' ∘ opt) := by
  cases x <;> simp [map, mapM, List.mapM_map, Function.comp_def]

theorem mapM_some (x : Item τ ρ ο) : x.mapM some some some = some x := by
  have all {α : Type} (as : List α) : as.mapM (some : α → Option α) = some as := by
    induction as with
    | nil => rfl
    | cons a as ih => simp [ih]
  cases x <;> simp [mapM, all]

private theorem list_map_eq_of_mapM {α β γ : Type} {f : α → Option β} {F : α → γ} {F' : β → γ}
    (agree : ∀ a b, f a = some b → F a = F' b) {as : List α} {bs : List β}
    (h : as.mapM f = some bs) : as.map F = bs.map F' := by
  induction as generalizing bs with
  | nil => cases bs <;> simp_all
  | cons a as ih =>
      simp only [List.mapM_cons, Option.bind_eq_bind, Option.bind_eq_some_iff, Option.pure_def,
        Option.some.injEq] at h
      obtain ⟨b, hb, bs', hbs, rfl⟩ := h
      simp [agree a b hb, ih hbs]

/-- Maps that agree on what the parts of an item come to agree on the item. -/
theorem map_eq_map_of_mapM {τ₁ ρ₁ ο₁ : Type} {text : τ → Option τ'} {req : ρ → Option ρ'}
    {opt : ο → Option ο'} {text₁ : τ → τ₁} {req₁ : ρ → ρ₁} {opt₁ : ο → ο₁} {text₂ : τ' → τ₁}
    {req₂ : ρ' → ρ₁} {opt₂ : ο' → ο₁} (texts : ∀ a b, text a = some b → text₁ a = text₂ b)
    (reqs : ∀ a b, req a = some b → req₁ a = req₂ b)
    (opts : ∀ a b, opt a = some b → opt₁ a = opt₂ b) {x : Item τ ρ ο} {y : Item τ' ρ' ο'}
    (h : x.mapM text req opt = some y) : x.map text₁ req₁ opt₁ = y.map text₂ req₂ opt₂ := by
  cases x <;> simp only [mapM, Option.some.injEq, Option.map_eq_some_iff, Option.bind_eq_bind,
    Option.bind_eq_some_iff, Option.pure_def] at h
  case indexArray ss =>
    obtain ⟨ss', hs, rfl⟩ := h
    simp only [map, indexArray.injEq]
    refine list_map_eq_of_mapM ?_ hs
    intro s s' hs
    simp only [Option.bind_eq_some_iff, Option.some.injEq] at hs
    obtain ⟨a, ha, b, hb, rfl⟩ := hs
    simp [reqs _ _ ha, opts _ _ hb]
  case object fs =>
    obtain ⟨fs', hf, rfl⟩ := h
    simp only [map, object.injEq]
    refine list_map_eq_of_mapM ?_ hf
    intro f f' hf
    simp only [Option.bind_eq_some_iff, Option.some.injEq] at hf
    obtain ⟨a, ha, b, hb, rfl⟩ := hf
    simp [reqs _ _ ha, reqs _ _ hb]
  case sequence es =>
    obtain ⟨es', he, rfl⟩ := h
    simp only [map, list_map_eq_of_mapM reqs he]
  case binary =>
    obtain ⟨l', hl, r', hr, rfl⟩ := h
    simp only [map, reqs _ _ hl, reqs _ _ hr]
  case likeRegex =>
    obtain ⟨e', he, p', hp, rfl⟩ := h
    simp only [map, reqs _ _ he, texts _ _ hp]
  case string | numeric | var | key =>
    obtain ⟨s', hs, rfl⟩ := h
    simp only [map, texts _ _ hs]
  case unary =>
    obtain ⟨a', ha, rfl⟩ := h
    simp only [map, reqs _ _ ha]
  case datetime | array =>
    obtain ⟨o', ho, rfl⟩ := h
    simp only [map, opts _ _ ho]
  all_goals
    subst h
    rfl

/-- The texts an item holds. -/
def texts : Item τ ρ ο → List τ
  | string s | numeric s | var s | key s => [s]
  | likeRegex _ p _ => [p]
  | _ => []

theorem mem_pairSlots {first second : Nat → Role} {required : Bool} {ps : List (σ × σ)} {i : Nat}
    {s : Slot σ} :
    s ∈ pairSlots first second required i ps ↔
      ∃ k a b, ps[k]? = some (a, b) ∧
        (s = ⟨first (i + k), true, a⟩ ∨ s = ⟨second (i + k), required, b⟩) := by
  induction ps generalizing i with
  | nil => simp [pairSlots]
  | cons p ps ih =>
      simp only [pairSlots, List.mem_cons, ih]
      constructor
      · rintro (rfl | rfl | ⟨k, a, b, hk, h⟩)
        · exact ⟨0, p.1, p.2, rfl, .inl rfl⟩
        · exact ⟨0, p.1, p.2, rfl, .inr rfl⟩
        · exact ⟨k + 1, a, b, hk, by rwa [← Nat.add_assoc, Nat.add_right_comm]⟩
      · rintro ⟨k, a, b, hk, h⟩
        cases k with
        | zero =>
            obtain rfl : p = (a, b) := by simpa using hk
            exact h.elim .inl fun h => .inr (.inl h)
        | succ k =>
            refine .inr (.inr ⟨k, a, b, hk, ?_⟩)
            rwa [← Nat.add_assoc, Nat.add_right_comm] at h

theorem mem_elementSlots {es : List σ} {i : Nat} {s : Slot σ} :
    s ∈ elementSlots i es ↔ ∃ k e, es[k]? = some e ∧ s = ⟨.element (i + k), true, e⟩ := by
  induction es generalizing i with
  | nil => simp [elementSlots]
  | cons e es ih =>
      simp only [elementSlots, List.mem_cons, ih]
      constructor
      · rintro (rfl | ⟨k, a, hk, h⟩)
        · exact ⟨0, e, rfl, rfl⟩
        · exact ⟨k + 1, a, hk, by rwa [← Nat.add_assoc, Nat.add_right_comm]⟩
      · rintro ⟨k, a, hk, h⟩
        cases k with
        | zero =>
            obtain rfl : e = a := by simpa using hk
            exact .inl h
        | succ k => exact .inr ⟨k, a, hk, by rwa [← Nat.add_assoc, Nat.add_right_comm] at h⟩

/-- The argument slot of an item must be filled exactly if its kind says so. -/
theorem required_argument {x : Item τ σ σ} {s : Slot σ} (mem : s ∈ x.slots)
    (role : s.role = .argument) : s.required = x.kind.requiresArgument := by
  cases x with
  | null | string | numeric | bool | var | key | root | current | last | anyArray | anyKey | any
  | method => cases mem
  | unary | datetime | array =>
      obtain rfl := List.mem_singleton.1 mem
      rfl
  | likeRegex =>
      obtain rfl := List.mem_singleton.1 mem
      cases role
  | binary =>
      obtain rfl | mem := List.mem_cons.1 mem
      · cases role
      · obtain rfl := List.mem_singleton.1 mem
        cases role
  | indexArray | object =>
      obtain ⟨_, _, _, _, rfl | rfl⟩ := mem_pairSlots.1 mem <;> cases role
  | sequence =>
      obtain ⟨_, _, _, rfl⟩ := mem_elementSlots.1 mem
      cases role

theorem requiresArgument_iff {x : Item τ σ σ} :
    x.kind.requiresArgument ↔ ∃ s ∈ x.slots, s.role = .argument ∧ s.required := by
  constructor
  · intro h
    cases x with
    | unary => exact ⟨_, .head _, rfl, rfl⟩
    | _ => cases h
  · rintro ⟨s, mem, role, required⟩
    rwa [← required_argument mem role]

/-- The slots of subscripts: a start for each, and a stop that may be empty. -/
theorem mem_operandSlots_indexArray {ss : List (σ × Option σ)} {s : Slot (Option σ)} :
    s ∈ (indexArray ss : Item τ σ (Option σ)).operandSlots ↔
      ∃ k a b, ss[k]? = some (a, b) ∧
        (s = ⟨.start k, true, some a⟩ ∨ s = ⟨.stop k, false, b⟩) := by
  simp only [operandSlots, map, slots, mem_pairSlots, Nat.zero_add]
  refine exists_congr fun k => ?_
  rcases found : ss[k]? with _ | ⟨a, b⟩ <;> simp [found]

theorem mem_operandSlots_sequence {es : List σ} {s : Slot (Option σ)} :
    s ∈ (sequence es : Item τ σ (Option σ)).operandSlots ↔
      ∃ k e, es[k]? = some e ∧ s = ⟨.element k, true, some e⟩ := by
  simp [operandSlots, map, slots, mem_elementSlots]

theorem mem_operandSlots_object {fs : List (σ × σ)} {s : Slot (Option σ)} :
    s ∈ (object fs : Item τ σ (Option σ)).operandSlots ↔
      ∃ k key value, fs[k]? = some (key, value) ∧
        (s = ⟨.key k, true, some key⟩ ∨ s = ⟨.value k, true, some value⟩) := by
  simp [operandSlots, map, slots, mem_pairSlots]

private theorem exists_list_mapM {α β : Type} {f : α → Option β} {as : List α}
    (h : ∀ a ∈ as, ∃ b, f a = some b) : ∃ bs, as.mapM f = some bs := by
  induction as with
  | nil => exact ⟨[], rfl⟩
  | cons a as ih =>
      obtain ⟨b, hb⟩ := h a (by simp)
      obtain ⟨bs, hbs⟩ := ih fun a ha => h a (by simp [ha])
      exact ⟨b :: bs, by simp [hb, hbs]⟩

/-- An item comes to something once its texts, its slots and its required slots do. -/
theorem exists_mapM {text : τ → Option τ'} {req : σ → Option ρ'} {opt : σ → Option ο'}
    {x : Item τ σ σ} (texts : ∀ t ∈ x.texts, ∃ t', text t = some t')
    (reqs : ∀ s ∈ x.slots, s.required → ∃ e, req s.content = some e)
    (opts : ∀ s ∈ x.slots, ∃ o, opt s.content = some o) : ∃ y, x.mapM text req opt = some y := by
  cases x with
  | null | root | current | last | anyArray | anyKey | bool | any | method => exact ⟨_, rfl⟩
  | string s | numeric s | var s | key s =>
      obtain ⟨t, ht⟩ := texts s (by simp [Item.texts])
      simp [mapM, ht]
  | binary op l r =>
      obtain ⟨l', hl⟩ := reqs ⟨.left, true, l⟩ (by simp [slots]) rfl
      obtain ⟨r', hr⟩ := reqs ⟨.right, true, r⟩ (by simp [slots]) rfl
      simp only at hl hr
      simp [mapM, hl, hr]
  | unary op a =>
      obtain ⟨a', ha⟩ := reqs ⟨.argument, true, a⟩ (by simp [slots]) rfl
      simp only at ha
      simp [mapM, ha]
  | likeRegex e p f =>
      obtain ⟨e', he⟩ := reqs ⟨.operand, true, e⟩ (by simp [slots]) rfl
      obtain ⟨p', hp⟩ := texts p (by simp [Item.texts])
      simp only at he
      simp [mapM, he, hp]
  | datetime o | array o =>
      obtain ⟨o', ho⟩ := opts ⟨.argument, false, o⟩ (by simp [slots])
      simp only at ho
      simp [mapM, ho]
  | indexArray ss =>
      suffices h : ∀ s ∈ ss, ∃ b, (fun (a, b) => do return (← req a, ← opt b)) s = some b by
        obtain ⟨ss', hs⟩ := exists_list_mapM h
        exact ⟨indexArray ss', by simp only [mapM, hs, Option.map_some]⟩
      rintro ⟨a, b⟩ hs
      obtain ⟨k, hk⟩ := List.getElem?_of_mem hs
      obtain ⟨a', ha⟩ := reqs ⟨.start (0 + k), true, a⟩
        (mem_pairSlots.2 ⟨k, a, b, hk, .inl rfl⟩) rfl
      obtain ⟨b', hb⟩ := opts ⟨.stop (0 + k), false, b⟩ (mem_pairSlots.2 ⟨k, a, b, hk, .inr rfl⟩)
      simp only at ha hb
      simp [ha, hb]
  | sequence es =>
      suffices h : ∀ e ∈ es, ∃ e', req e = some e' by
        obtain ⟨es', he⟩ := exists_list_mapM h
        exact ⟨sequence es', by simp only [mapM, he, Option.map_some]⟩
      intro e he
      obtain ⟨k, hk⟩ := List.getElem?_of_mem he
      exact reqs ⟨.element (0 + k), true, e⟩ (mem_elementSlots.2 ⟨k, e, hk, rfl⟩) rfl
  | object fs =>
      suffices h : ∀ f ∈ fs, ∃ b, (fun (k, v) => do return (← req k, ← req v)) f = some b by
        obtain ⟨fs', hf⟩ := exists_list_mapM h
        exact ⟨object fs', by simp only [mapM, hf, Option.map_some]⟩
      rintro ⟨a, b⟩ hf
      obtain ⟨k, hk⟩ := List.getElem?_of_mem hf
      obtain ⟨a', ha⟩ := reqs ⟨.key (0 + k), true, a⟩
        (mem_pairSlots.2 ⟨k, a, b, hk, .inl rfl⟩) rfl
      obtain ⟨b', hb⟩ := reqs ⟨.value (0 + k), true, b⟩
        (mem_pairSlots.2 ⟨k, a, b, hk, .inr rfl⟩) rfl
      simp only at ha hb
      simp [ha, hb]

/-- The texts of an item that comes to something come to something. -/
theorem exists_text_of_mapM {text : τ → Option τ'} {req : ρ → Option ρ'} {opt : ο → Option ο'}
    {x : Item τ ρ ο} {y : Item τ' ρ' ο'} (h : x.mapM text req opt = some y) {t : τ}
    (mem : t ∈ x.texts) : ∃ t', text t = some t' := by
  cases x with
  | string s | numeric s | var s | key s =>
      obtain rfl := List.mem_singleton.1 mem
      obtain ⟨t', found, _⟩ := Option.map_eq_some_iff.1 h
      exact ⟨t', found⟩
  | likeRegex e p f =>
      obtain rfl := List.mem_singleton.1 mem
      obtain ⟨_, _, h⟩ := Option.bind_eq_some_iff.1 h
      obtain ⟨t', found, _⟩ := Option.bind_eq_some_iff.1 h
      exact ⟨t', found⟩
  | _ => cases mem

/-- An item is worked out from one of the same skeleton once the slots come to its operands. -/
theorem mapM_eq_some_of_slots {x : Item τ σ σ} {y : Item τ' ρ (Option ρ)} {text : τ → Option τ'}
    {back : τ' → τ} {below : σ → Option (Option ρ)} (texts : ∀ t, text (back t) = some t)
    (skeletons : x.skeleton = (y.map back id id).skeleton)
    (slots : (x.slots.map Slot.content).map below = (y.operandSlots.map Slot.content).map some) :
    x.mapM text (fun a => (below a).join) below = some y := by
  have parts : x.map text below below = y.map some (some ∘ some) some := by
    apply ext_slots
    · have := congrArg (Item.map text id id) skeletons
      simpa [skeleton, map_map, Function.comp_def, texts] using this
    · have optional : y.map some (some ∘ some) some = (y.map id some id).map some some some := by
        rw [map_map]
        rfl
      rw [optional, slots_map, slots_map]
      simpa [operandSlots, Slot.map, Function.comp_def] using slots
  calc x.mapM text (fun a => (below a).join) below
      = (x.map text below below).mapM id Option.join id := by rw [mapM_map]; rfl
    _ = (y.map some (some ∘ some) some).mapM id Option.join id := by rw [parts]
    _ = y.mapM some some some := by rw [mapM_map]; rfl
    _ = some y := mapM_some y

/-- What an item was worked out from, slot by slot. -/
theorem slots_of_mapM {x : Item τ σ σ} {y : Item τ' ρ (Option ρ)} {text : τ → Option τ'}
    {below : σ → Option (Option ρ)}
    (h : x.mapM text (fun a => (below a).join) below = some y) :
    x.slots.map (Slot.map below) = y.operandSlots.map (Slot.map some) := by
  have parts : x.map (fun _ => ()) below below = y.map (fun _ => ()) (some ∘ some) some := by
    refine map_eq_map_of_mapM (fun _ _ _ => rfl) (fun a e he => ?_) (fun _ _ he => he) h
    exact Option.join_eq_some_iff.1 he
  have optional : y.map (fun _ => ()) (some ∘ some) some =
      (y.map id some id).map (fun _ => ()) some some := by
    rw [map_map]
    rfl
  have slots := congrArg Item.slots parts
  rwa [optional, slots_map, slots_map] at slots

/-- Behind every slot stands an operand in the same role. -/
theorem exists_slot_of_mapM {x : Item τ σ σ} {y : Item τ' ρ (Option ρ)} {text : τ → Option τ'}
    {below : σ → Option (Option ρ)} (h : x.mapM text (fun a => (below a).join) below = some y)
    {s : Slot σ} (mem : s ∈ x.slots) :
    ∃ o, ⟨s.role, s.required, o⟩ ∈ y.operandSlots ∧ below s.content = some o := by
  have mem : s.map below ∈ y.operandSlots.map (Slot.map some) := by
    rw [← slots_of_mapM h]
    exact List.mem_map_of_mem mem
  obtain ⟨⟨role, required, o⟩, mem, same⟩ := List.mem_map.1 mem
  simp only [Slot.map, Slot.mk.injEq] at same
  obtain ⟨rfl, rfl, content⟩ := same
  exact ⟨o, mem, content.symm⟩

theorem kind_of_mapM {x : Item τ ρ ο} {y : Item τ' ρ' ο'} {text : τ → Option τ'}
    {req : ρ → Option ρ'} {opt : ο → Option ο'} (h : x.mapM text req opt = some y) :
    y.kind = x.kind := by
  have skeletons : x.map (fun _ => ()) (fun _ => ()) (fun _ => ()) =
      y.map (fun _ => ()) (fun _ => ()) (fun _ => ()) :=
    map_eq_map_of_mapM (fun _ _ _ => rfl) (fun _ _ _ => rfl) (fun _ _ _ => rfl) h
  simpa using (congrArg kind skeletons).symm

/-- An operand that has to be there is there. -/
theorem isSome_of_required {x : Item τ σ (Option σ)} {s : Slot (Option σ)}
    (mem : s ∈ x.operandSlots) (h : s.required) : s.content.isSome := by
  cases x with
  | null | string | numeric | bool | var | key | root | current | last | anyArray | anyKey | any
  | method => cases mem
  | binary op l r =>
      obtain rfl | rfl : s = ⟨.left, true, some l⟩ ∨ s = ⟨.right, true, some r⟩ := by
        simpa using mem
      · rfl
      · rfl
  | unary _ a | likeRegex a _ _ =>
      obtain rfl := List.mem_singleton.1 mem
      rfl
  | datetime o | array o =>
      obtain rfl := List.mem_singleton.1 mem
      cases h
  | indexArray ss =>
      obtain ⟨k, a, b, _, rfl | rfl⟩ := mem_operandSlots_indexArray.1 mem
      · rfl
      · cases h
  | sequence es =>
      obtain ⟨k, e, _, rfl⟩ := mem_operandSlots_sequence.1 mem
      rfl
  | object fs =>
      obtain ⟨k, key, value, _, rfl | rfl⟩ := mem_operandSlots_object.1 mem
      · rfl
      · rfl

end Item

namespace Expr

theorem sizeOf_operand_lt {x : Item String Expr (Option Expr)} {e : Expr} (h : e ∈ x.operands) :
    sizeOf e < sizeOf x := by
  cases x with
  | null | string | numeric | bool | var | key | root | current | last | anyArray | anyKey | any
  | method => cases h
  | binary op l r =>
      obtain rfl | rfl : e = l ∨ e = r := by simpa using h
      all_goals simp +arith
  | unary op a =>
      obtain rfl : e = a := by simpa using h
      simp +arith
  | likeRegex a p f =>
      obtain rfl : e = a := by simpa using h
      simp +arith
  | datetime o | array o =>
      obtain rfl : o = some e := by simpa using h
      simp +arith
  | indexArray ss =>
      simp only [Item.operands_indexArray, List.mem_flatMap] at h
      obtain ⟨⟨a, o⟩, hs, he⟩ := h
      have := List.sizeOf_lt_of_mem hs
      obtain rfl | rfl : e = a ∨ o = some e := by simpa using he
      all_goals
        simp +arith at this ⊢
        omega
  | sequence es =>
      have := List.sizeOf_lt_of_mem (by simpa using h)
      simp +arith at this ⊢
      omega
  | object fs =>
      simp only [Item.operands_object, List.mem_flatMap] at h
      obtain ⟨⟨k, v⟩, hf, he⟩ := h
      have := List.sizeOf_lt_of_mem hf
      obtain rfl | rfl : e = k ∨ e = v := by simpa using he
      all_goals
        simp +arith at this ⊢
        omega

/-- Induction over operands and continuations. -/
@[elab_as_elim]
theorem operandInduction {motive : Expr → Prop}
    (mk : ∀ x next, (∀ e ∈ x.operands, motive e) → (∀ e ∈ next, motive e) → motive (.mk x next))
    (e : Expr) : motive e := by
  induction size : sizeOf e using Nat.strongRecOn generalizing e with
  | _ n ih =>
      subst size
      obtain ⟨x, next⟩ := e
      refine mk x next (fun e h => ih _ ?_ e rfl) (fun e h => ih _ ?_ e rfl)
      · have := sizeOf_operand_lt h
        simp only [Expr.mk.sizeOf_spec]
        omega
      · obtain rfl := h
        simp +arith

/-- How deep operands nest in a chain; its length does not count. -/
def depth (e : Expr) : Nat :=
  e.fold fun x next => max (x.operands.foldr max 0 + 1) (next.getD 0)

theorem depth_mk (x : Item String Expr (Option Expr)) (next : Option Expr) :
    (mk x next).depth = max ((x.operands.map depth).foldr max 0 + 1) ((next.map depth).getD 0) := by
  rw [depth, fold_mk, Item.operands_map]
  rfl

theorem foldr_max_le {ns : List Nat} {n : Nat} :
    ns.foldr max 0 ≤ n ↔ ∀ m ∈ ns, m ≤ n := by
  induction ns with
  | nil => simp
  | cons m ns ih => simp [ih]

theorem depth_mk_le {x : Item String Expr (Option Expr)} {next : Option Expr} {n : Nat} :
    (mk x next).depth ≤ n ↔
      1 ≤ n ∧ (∀ e ∈ x.operands, e.depth + 1 ≤ n) ∧ ∀ e ∈ next, e.depth ≤ n := by
  have operands : (x.operands.map depth).foldr max 0 + 1 ≤ n ↔
      1 ≤ n ∧ ∀ e ∈ x.operands, e.depth + 1 ≤ n := by
    cases n with
    | zero => simp
    | succ n => simp [foldr_max_le]
  have next : (next.map depth).getD 0 ≤ n ↔ ∀ e ∈ next, e.depth ≤ n := by
    cases next <;> simp
  rw [depth_mk, Nat.max_le, operands, next, and_assoc]

/-- The nesting of a chain among `n` others. -/
theorem add_depth_mk_le {x : Item String Expr (Option Expr)} {next : Option Expr} {n m : Nat} :
    n + (mk x next).depth ≤ m ↔
      n + 1 ≤ m ∧ (∀ e ∈ x.operands, n + 1 + e.depth ≤ m) ∧ ∀ e ∈ next, n + e.depth ≤ m := by
  constructor
  · intro h
    have left : (mk x next).depth ≤ m - n := by omega
    obtain ⟨own, operands, rest⟩ := depth_mk_le.1 left
    refine ⟨by omega, fun e he => ?_, fun e he => ?_⟩
    · have := operands e he
      omega
    · have := rest e he
      omega
  · rintro ⟨own, operands, rest⟩
    have left : (mk x next).depth ≤ m - n := by
      refine depth_mk_le.2 ⟨by omega, fun e he => ?_, fun e he => ?_⟩
      · have := operands e he
        omega
      · have := rest e he
        omega
    omega

theorem depth_operand_lt {x : Item String Expr (Option Expr)} {e : Expr} (next : Option Expr)
    (h : e ∈ x.operands) : e.depth < (mk x next).depth :=
  (depth_mk_le.1 (Nat.le_refl (mk x next).depth)).2.1 e h

theorem depth_next_le (x : Item String Expr (Option Expr)) (e : Expr) :
    e.depth ≤ (mk x (some e)).depth :=
  (depth_mk_le.1 (Nat.le_refl (mk x (some e)).depth)).2.2 e rfl

theorem depth_pos (e : Expr) : 0 < e.depth := by
  obtain ⟨x, next⟩ := e
  exact (depth_mk_le.1 (Nat.le_refl _)).1

end Expr

/-- A walk at this nesting can go through the whole expression. -/
structure Descent.Holds (d : Descent) (e : Expr) : Prop where
  running : d.limits.isCancelled = false
  room : d.depth + e.depth ≤ d.limits.recursionLimit.toNat + 1

namespace Descent.Holds

variable {d : Descent} {x : Item String Expr (Option Expr)} {e : Expr}

theorem operand {next : Option Expr} (h : d.Holds (.mk x next)) (he : e ∈ x.operands) :
    ∃ d', d.enter = .ok d' ∧ d'.Holds e := by
  have bound := Expr.depth_operand_lt next he
  have positive := e.depth_pos
  have room := h.room
  refine ⟨{ d with depth := d.depth + 1 }, ?_, h.running, by simp only; omega⟩
  have near : ¬ d.limits.recursionLimit.toNat ≤ d.depth := by omega
  simp [enter, h.running, near]

theorem next (h : d.Holds (.mk x (some e))) : d.Holds e := by
  have bound := Expr.depth_next_le x e
  have room := h.room
  exact ⟨h.running, by omega⟩

/-- The walk itself is within its limit. -/
theorem deep (h : d.Holds e) : d.depth ≤ d.limits.recursionLimit.toNat := by
  have positive := e.depth_pos
  have room := h.room
  omega

end Descent.Holds

theorem Limits.exists_holds {limits : Limits} {e : Expr} (running : limits.isCancelled = false)
    (h : e.depth ≤ limits.recursionLimit.toNat) :
    ∃ d, limits.descent.enter = .ok d ∧ d.Holds e := by
  have positive := e.depth_pos
  have near : ¬ limits.recursionLimit.toNat ≤ 0 := by omega
  exact ⟨⟨limits, 1⟩, by simp [descent, Descent.enter, running, near],
    running, by simp only; omega⟩

/-- Once the token is raised no walk begins. -/
theorem Limits.enter_of_cancelled {limits : Limits} (raised : limits.isCancelled = true) :
    limits.descent.enter = .error .cancelled := by
  simp [descent, Descent.enter, raised]

/-- What stays within some limit stays within the highest one. -/
theorem Limits.le_unbounded {limit : UInt32} {n : Nat} (h : n ≤ limit.toNat) :
    n ≤ unbounded.recursionLimit.toNat := by
  have := limit.toNat_lt
  simp only [unbounded, UInt32.reduceToNat]
  omega

end FlatPath
