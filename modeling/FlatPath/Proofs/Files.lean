import FlatPath.CommandLine.Files
import FlatPath.Proofs.Success

/-!
Files under their names. Every way from the root has one shortest name, from which the directories
on the way are found again; so a file that is written where a name leads makes no directory and
takes none away, and all names lead where they led before.
-/

namespace FlatPath.CommandLine.Files

section Names

variable {home name : String} {way : List String}

/-- A way whose parts can stand in a name. -/
def Proper (way : List String) : Prop :=
  ∀ part ∈ way, part ≠ "" ∧ '/' ∉ part.toList

theorem Proper.dropLast (h : Proper way) : Proper way.dropLast :=
  fun part mem => h part (List.mem_of_mem_dropLast mem)

theorem Proper.append {part : String} (h : Proper way) (named : part ≠ "")
    (inner : '/' ∉ part.toList) : Proper (way ++ [part]) := by
  intro other mem
  obtain mem | mem := List.mem_append.1 mem
  · exact h other mem
  · rw [List.mem_singleton.1 mem]
    exact ⟨named, inner⟩

theorem Proper.filter (h : Proper way) : way.filter (· ≠ "") = way :=
  List.filter_eq_self.2 fun part mem => decide_eq_true (h part mem).1

theorem not_mem_of_mem_splitOn {α : Type} [BEq α] [LawfulBEq α] {a : α} {as piece : List α}
    (mem : piece ∈ as.splitOn a) : a ∉ piece := by
  induction as generalizing piece with
  | nil => simp_all
  | cons b bs ih =>
      obtain ⟨first, others, split⟩ := List.exists_cons_of_ne_nil (List.splitOn_ne_nil a bs)
      rw [List.splitOn_cons_eq_if_modifyHead] at mem
      by_cases same : b = a
      · rw [if_pos (beq_iff_eq.2 same)] at mem
        obtain rfl | mem := List.mem_cons.1 mem
        · exact List.not_mem_nil
        · exact ih mem
      · rw [if_neg (mt beq_iff_eq.1 same), split, List.modifyHead_cons] at mem
        obtain rfl | mem := List.mem_cons.1 mem
        · exact List.not_mem_cons_of_ne_of_not_mem (Ne.symm same) (ih (by simp [split]))
        · exact ih (by simp [split, mem])

theorem slash_not_mem_of_mem_parts {part : String} (mem : part ∈ parts name) :
    '/' ∉ part.toList := by
  obtain ⟨piece, found, rfl⟩ := List.mem_map.1 mem
  rw [String.toList_ofList]
  exact not_mem_of_mem_splitOn found

theorem slash_not_mem_of_mem_steps {part : String} (mem : part ∈ steps home name) :
    '/' ∉ part.toList := by
  rw [steps] at mem
  split at mem
  · next absolute => exact slash_not_mem_of_mem_parts (by rw [absolute]; exact .tail _ mem)
  · exact (List.mem_append.1 mem).elim slash_not_mem_of_mem_parts slash_not_mem_of_mem_parts

theorem parts_intercalate {ps : List String} (inner : ∀ part ∈ ps, '/' ∉ part.toList)
    (some : ps ≠ []) : parts ("/".intercalate ps) = ps := by
  have split : (['/'].intercalate (ps.map String.toList)).splitOn '/' = ps.map String.toList :=
    List.splitOn_intercalate '/' (by simpa using inner) (by simpa using some)
  rw [parts, String.toList_intercalate]
  simp [split]

theorem steps_of_relative {part : String} {others : List String}
    (h : parts name = part :: others) (named : part ≠ "") :
    steps home name = parts home ++ part :: others := by
  rw [steps, h]
  split
  · next eq => cases eq; exact absurd rfl named
  · rfl

theorem steps_of_absolute {part : String} {others : List String}
    (h : parts name = "" :: part :: others) : steps home name = part :: others := by
  simp [steps, h]

theorem around_empty (home : String) : around home "" = (parts home).filter (· ≠ "") := by
  have relative : steps home "" = parts home ++ [""] := rfl
  rw [around, relative, List.dropLast_concat]

theorem shortest_of_below (home : String) (below : List String) :
    shortest home (around home "" ++ below) = "/".intercalate below := by
  simp [shortest]

theorem shortest_of_apart (apart : ¬ around home "" <+: way) :
    shortest home way = "/".intercalate ("" :: way) := by
  simp [shortest, apart]

/-- A shortest name starts at the working directory or at the root, and says the rest of the way. -/
theorem steps_shortest (proper : Proper way) (apart : ¬ way <+: around home "") :
    ∃ start below, steps home (shortest home way) = start ++ below ∧ below ≠ [] ∧
      way = start.filter (· ≠ "") ++ below := by
  by_cases inside : around home "" <+: way
  · obtain ⟨_ | ⟨part, others⟩, rfl⟩ := inside
    · simp at apart
    · have below : Proper (part :: others) := fun other mem => proper other (by simp [mem])
      have split := parts_intercalate (fun other mem => (below other mem).2) (by simp)
      refine ⟨parts home, part :: others, ?_, by simp, by rw [around_empty]⟩
      rw [shortest_of_below, steps_of_relative split (below part (by simp)).1]
  · obtain _ | ⟨part, others⟩ := way
    · simp at apart
    · have split : parts ("/".intercalate ("" :: part :: others)) = "" :: part :: others := by
        refine parts_intercalate (fun other mem => ?_) (by simp)
        obtain rfl | mem := List.mem_cons.1 mem
        · simp
        · exact (proper other mem).2
      refine ⟨[], part :: others, ?_, by simp, rfl⟩
      rw [shortest_of_apart inside, steps_of_absolute split, List.nil_append]

/-- The way to the directory of a file is found again from the shortest name of the file. -/
theorem around_shortest (proper : Proper way) (apart : ¬ way <+: around home "") :
    around home (shortest home way) = way.dropLast := by
  obtain ⟨start, below, steps, some, rfl⟩ := steps_shortest proper apart
  have proper : Proper below := fun part mem => proper part (List.mem_append_right _ mem)
  rw [around, steps, List.dropLast_append_of_ne_nil some, List.filter_append,
    proper.dropLast.filter, List.dropLast_append_of_ne_nil some]

theorem filter_steps_shortest (proper : Proper way) (apart : ¬ way <+: around home "") :
    (steps home (shortest home way)).filter (· ≠ "") = way := by
  obtain ⟨start, below, steps, some, rfl⟩ := steps_shortest proper apart
  have proper : Proper below := fun part mem => proper part (List.mem_append_right _ mem)
  rw [steps, List.filter_append, proper.filter]

end Names

section Directories

variable {home : String} {files files' : Files home} {way : List String} {name entry : String}
  {contents : ByteArray}

theorem isDirectory_iff : files.isDirectory way ↔
    way <+: around home "" ∨ ∃ e ∈ files.entries, way <+: around home e.1 := by
  simp [isDirectory]

/-- What leads to a directory is a directory. -/
theorem isDirectory_of_leads {way' : List String} (h : files.isDirectory way)
    (leads : way' <+: way) : files.isDirectory way' := by
  rw [isDirectory_iff] at h ⊢
  exact h.imp leads.trans fun ⟨e, mem, there⟩ => ⟨e, mem, leads.trans there⟩

theorem isDirectory_root (files : Files home) : files.isDirectory [] :=
  isDirectory_iff.2 (.inl List.nil_prefix)

/-- A file can stand at the end of the way, whether or not one is there. -/
structure Stands (files : Files home) (way : List String) : Prop where
  proper : Proper way
  inside : files.isDirectory way.dropLast
  free : ¬ files.isDirectory way

namespace Stands

variable {way' : List String}

theorem apart (h : files.Stands way) : ¬ way <+: around home "" :=
  fun leads => h.free (isDirectory_iff.2 (.inl leads))

/-- Two files do not share a shortest name. -/
theorem eq_of_shortest_eq (h : files.Stands way) (h' : files.Stands way')
    (same : shortest home way = shortest home way') : way = way' := by
  rw [← filter_steps_shortest h.proper h.apart, same, filter_steps_shortest h'.proper h'.apart]

end Stands

/-- The walk goes along proper ways to directories until it comes to a file. -/
theorem follow_entry {rest : List String} (proper : Proper way) (here : files.isDirectory way)
    (inner : ∀ part ∈ rest, '/' ∉ part.toList)
    (h : files.follow way rest = .ok (.entry entry)) :
    ∃ way, files.Stands way ∧ entry = shortest home way := by
  fun_induction follow with
  | case1 | case4 | case7 | case8 => cases h
  | case2 way part rest stays ih => exact ih proper here (List.forall_mem_cons.1 inner).2 h
  | case3 way rest _ ih =>
      exact ih proper.dropLast (isDirectory_of_leads here (List.dropLast_prefix _))
        (List.forall_mem_cons.1 inner).2 h
  | case5 way part rest stays up short enters ih =>
      exact ih (proper.append (fun empty => stays (.inl empty)) (inner part (.head _))) enters
        (List.forall_mem_cons.1 inner).2 h
  | case6 way part stays up short free name =>
      refine ⟨way ++ [part], ⟨proper.append (fun empty => stays (.inl empty))
        (inner part (.head _)), ?_, free⟩, (Place.entry.inj (Except.ok.inj h)).symm⟩
      rwa [List.dropLast_concat]

theorem exists_stands (h : files.locate name = .ok (.entry entry)) :
    ∃ way, files.Stands way ∧ entry = shortest home way := by
  rw [locate] at h
  split at h
  · cases h
  · exact follow_entry (by simp [Proper]) (isDirectory_root files)
      (fun part mem => slash_not_mem_of_mem_steps mem) h

/-- Only the directories say how a walk ends at a file or a directory. -/
theorem follow_of_same {rest : List String} {place : Place}
    (same : ∀ way, files'.isDirectory way = files.isDirectory way)
    (h : files.follow way rest = .ok place) : files'.follow way rest = .ok place := by
  fun_induction files.follow way rest with
  | case1 => exact h
  | case2 way part rest stays ih =>
      rw [follow, if_pos stays]
      exact ih h
  | case3 way rest stays ih =>
      rw [follow, if_neg stays, if_pos rfl]
      exact ih h
  | case4 | case8 => cases h
  | case5 way part rest stays up short enters ih =>
      rw [follow, if_neg stays, if_neg up, if_neg short, if_pos ((same _).trans enters)]
      exact ih h
  | case6 way part stays up short free name =>
      rw [follow, if_neg stays, if_neg up, if_neg short, if_neg (same _ ▸ free)]
      exact h
  | case7 way part rest stays up short free name more asks =>
      rw [follow, if_neg stays, if_neg up, if_neg short, if_neg (same _ ▸ free)]
      simp only [if_neg more, if_pos asks]
      exact h

/-- The files with these contents in an entry. -/
def put (files : Files home) (entry : String) (contents : ByteArray) : Files home :=
  ⟨(entry, contents) :: files.entries.filter (·.1 != entry)⟩

theorem isDirectory_put (h : files.Stands way) (contents : ByteArray) (other : List String) :
    (files.put (shortest home way) contents).isDirectory other = files.isDirectory other := by
  rw [Bool.eq_iff_iff]
  constructor
  · intro there
    obtain base | ⟨e, mem, leads⟩ := isDirectory_iff.1 there
    · exact isDirectory_iff.2 (.inl base)
    · obtain rfl | mem := List.mem_cons.1 mem
      · rw [around_shortest h.proper h.apart] at leads
        exact isDirectory_of_leads h.inside leads
      · exact isDirectory_iff.2 (.inr ⟨e, (List.mem_filter.1 mem).1, leads⟩)
  · intro there
    refine isDirectory_iff.2 ((isDirectory_iff.1 there).imp_right fun ⟨e, mem, leads⟩ => ?_)
    by_cases same : e.1 = shortest home way
    · exact ⟨(shortest home way, contents), .head _, same ▸ leads⟩
    · exact ⟨e, .tail _ (List.mem_filter.2 ⟨mem, by simpa using same⟩), leads⟩

/-- A file that is written changes nothing about where names lead. -/
theorem locate_put {name' : String} {place : Place} (h : files.locate name = .ok (.entry entry))
    (contents : ByteArray) (h' : files.locate name' = .ok place) :
    (files.put entry contents).locate name' = .ok place := by
  obtain ⟨way, stands, rfl⟩ := exists_stands h
  rw [locate] at h' ⊢
  split at h'
  · cases h'
  · next short =>
      rw [if_neg short]
      exact follow_of_same (isDirectory_put stands contents) h'

end Directories

section Contents

variable {home : String} {files files' : Files home} {name name' entry entry' : String}
  {contents : ByteArray}

theorem write_of_locate (h : files.locate name = .ok (.entry entry)) (contents : ByteArray) :
    files.write name contents = .ok (files.put entry contents) := by
  rw [write, h]
  rfl

theorem write_eq_ok (h : files.write name contents = .ok files') :
    ∃ entry, files.locate name = .ok (.entry entry) ∧ files' = files.put entry contents := by
  obtain ⟨place, located, h⟩ := bind_eq_ok.1 h
  cases place with
  | directory | asDirectory => cases h
  | entry entry =>
      cases h
      exact ⟨entry, located, rfl⟩

/-- What was written is read. -/
theorem read_put (h : files.locate name = .ok (.entry entry)) (contents : ByteArray) :
    (files.put entry contents).read name = .ok contents := by
  rw [read, locate_put h contents h]
  simp [put]

/-- A file in a directory, written under one of its names and read under another. -/
example :
    let files : Files := ⟨[("trees/a.json", .empty)]⟩
    (do (← files.write "./trees/../trees/b.json" ⟨#[7]⟩).read "/work/trees//b.json") =
      .ok ⟨#[7]⟩ :=
  rfl

/-- The other files are left as they were. -/
theorem read_put_other (h : files.locate name = .ok (.entry entry))
    (h' : files.locate name' = .ok (.entry entry')) (differs : entry ≠ entry')
    (contents : ByteArray) : (files.put entry' contents).read name = files.read name := by
  have kept : (files.put entry' contents).entries.lookup entry = files.entries.lookup entry := by
    have away : (entry == entry') = false := beq_false_of_ne differs
    simp only [put, List.lookup_cons, away]
    induction files.entries with
    | nil => rfl
    | cons e es ih =>
        by_cases same : e.1 = entry'
        · have apart : (entry == e.1) = false := beq_false_of_ne (same ▸ differs)
          rw [List.filter_cons_of_neg (by simp [same]), ih, List.lookup_cons, apart]
        · rw [List.filter_cons_of_pos (by simp [same]), List.lookup_cons, List.lookup_cons, ih]
  rw [read, read, locate_put h' contents h, h]
  simp only [ok_bind, kept]

/-- The names lead to two different files. -/
def Apart (files : Files home) (name name' : String) : Prop :=
  ∃ entry entry', files.locate name = .ok (.entry entry) ∧
    files.locate name' = .ok (.entry entry') ∧ entry ≠ entry'

end Contents

end FlatPath.CommandLine.Files
