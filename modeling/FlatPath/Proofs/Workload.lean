import FlatPath.Proofs.Verification

/-!
How much the check of a payload does. A copy of its walk keeps a log of the items that it decodes
and of the steps that it takes from one item to another; but for the log it does what the walk does.
On any bytes each step leads forward and each item is decoded once, also where they are refused.
-/

namespace FlatPath

namespace Verify

/-- What is put down of a walk: an item that it decodes, or a step from an item to an operand or to
the next item of its chain. -/
inductive Event
  | decode (position : Nat)
  | step (source target : Nat)
deriving DecidableEq

abbrev Recorder := ExceptT FormatError (StateT (List Event) (StateM Marks))

variable {α β σ : Type}

/-- Does what the check does and puts nothing down. -/
def silent (x : Verifier α) : Recorder α :=
  ExceptT.mk (StateT.lift x.run)

def note (e : Event) : Recorder Unit :=
  modify (· ++ [e])

/-- `visit`, put down right before the item is decoded. -/
def recordVisit (payload : ByteArray) (position : Nat) : Recorder Cursor := do
  silent (mark position)
  note (.decode position)
  let item ← Cursor.decode payload position
  silent (refuse position (textDefect item.record))
  return item

/-- `items`, with every call of itself put down. -/
def recordItems (payload : ByteArray) (extensions : Bool) (d : Descent) (scope : Scope)
    (position : Nat) : Recorder Unit :=
  if _inside : position < payload.size then do
    let item ← recordVisit payload position
    silent (refuse position (scopeDefect extensions scope item.kind))
    item.slots.forM fun slot =>
      if _present : slot.content = 0 then
        silent (refuse position (if slot.required then some .missingOperand else none))
      else do
        silent (refuse position (offsetDefect payload position slot.content))
        note (.step position (position + slot.content.toNat))
        recordItems payload extensions (← silent (enter d)) (scope.operand item.kind slot.role)
          (position + slot.content.toNat)
    if _present : item.nextOffset = 0 then
      return ()
    else do
      silent (refuse position (offsetDefect payload position item.nextOffset))
      note (.step position (position + item.nextOffset.toNat))
      recordItems payload extensions d scope (position + item.nextOffset.toNat)
  else
    throw (.corrupt position .itemOutOfBounds)
termination_by payload.size - position
decreasing_by
  all_goals
    have := Bytes.toNat_pos _present
    omega

/-- The outcome of the check with its log, and the marks it left. -/
def record (payload : ByteArray) (extensions : Bool) (limits : Limits) :
    (Except FormatError Unit × List Event) × Marks :=
  ((do recordItems payload extensions (← silent (enter limits.descent)) .top 0 :
    Recorder Unit).run.run []).run { seen := .replicate payload.size false }

/-- The positions at which items were decoded. -/
def decodes (log : List Event) : List Nat :=
  log.filterMap fun
    | .decode position => some position
    | .step _ _ => none

/-- The positions that steps led to. -/
def targets (log : List Event) : List Nat :=
  log.filterMap fun
    | .decode _ => none
    | .step _ target => some target

/-- What a walk that begins at some positions leaves behind. It marks what it decodes, none of which
was marked before, and steps forward. It decodes each position that it begins at or steps to, only
not the last one if it is refused there. -/
structure Accounts (begins : List Nat) (accepted : Prop) (m m' : Marks) (log : List Event) :
    Prop where
  fresh : m.Fresh (decodes log)
  marks : m' = m.after (decodes log)
  forward : ∀ i j, .step i j ∈ log → i < j
  order : ∃ left, begins ++ targets log = decodes log ++ left ∧ left.length ≤ 1 ∧
    (accepted → left = [])

namespace Accounts

variable {begins : List Nat} {p : Prop} {m m₁ m' : Marks} {log log' : List Event}

theorem nil (m : Marks) (h : begins.length ≤ 1) (none : p → begins = []) :
    Accounts begins p m m [] where
  fresh := trivial
  marks := rfl
  forward := by simp
  order := ⟨begins, List.append_nil _, h, none⟩

theorem congr {q : Prop} (h : Accounts begins p m m' log) (same : q → p) :
    Accounts begins q m m' log :=
  have ⟨left, eq, bound, empty⟩ := h.order
  ⟨h.fresh, h.marks, h.forward, left, eq, bound, fun accepted => empty (same accepted)⟩

theorem append (h : Accounts begins True m m₁ log) (h' : Accounts [] p m₁ m' log') :
    Accounts begins p m m' (log ++ log') where
  fresh := by
    rw [decodes, List.filterMap_append]
    exact (m.fresh_append _ _).2 ⟨h.fresh, h.marks ▸ h'.fresh⟩
  marks := by
    rw [h'.marks, h.marks, ← Marks.after_append, decodes, decodes, decodes,
      List.filterMap_append]
  forward i j mem := by
    obtain mem | mem := List.mem_append.1 mem
    · exact h.forward i j mem
    · exact h'.forward i j mem
  order := by
    obtain ⟨_, same, _, none⟩ := h.order
    obtain ⟨left, same', bound, none'⟩ := h'.order
    rw [none trivial, List.append_nil] at same
    refine ⟨left, ?_, bound, none'⟩
    rw [List.nil_append] at same'
    rw [targets, decodes, List.filterMap_append, List.filterMap_append, ← List.append_assoc]
    exact (congrArg₂ _ same same').trans (List.append_assoc ..).symm

end Accounts

theorem run_record_bind (x : Recorder α) (f : α → Recorder β) (log : List Event) (m : Marks) :
    (((x >>= f).run.run log).run m).run = match ((x.run.run log).run m).run with
      | ((.ok a, log₁), m₁) => (((f a).run.run log₁).run m₁).run
      | ((.error e, log₁), m₁) => ((.error e, log₁), m₁) := by
  simp only [ExceptT.run_bind, StateT.run_bind, Id.run_bind]
  rcases (StateT.run (StateT.run x.run log) m).run with ⟨⟨_ | a, log₁⟩, m₁⟩ <;> rfl

theorem run_silent (x : Verifier α) (log : List Event) (m : Marks) :
    (((silent x).run.run log).run m).run = (((x.run.run m).run.1, log), (x.run.run m).run.2) := rfl

/-- The recorded walk does what the walk does, and its log accounts for it. -/
def Records (begins : List Nat) (x : Recorder α) (y : Verifier α) : Prop :=
  ∀ log m, ∃ r m' new, (y.run.run m).run = (r, m') ∧
    ((x.run.run log).run m).run = ((r, log ++ new), m') ∧ Accounts begins r.isOk m m' new

namespace Records

variable {begins : List Nat} {x : Recorder α} {y : Verifier α} {f : α → Recorder β}
  {g : α → Verifier β}

theorem pure (a : α) : Records [] (pure a) (pure a) :=
  fun log m =>
    ⟨.ok a, m, [], rfl, by rw [List.append_nil]; rfl, .nil m (Nat.zero_le 1) fun _ => rfl⟩

theorem throw (e : FormatError) (h : begins.length ≤ 1) :
    Records begins (throw e : Recorder α) (throw e) :=
  fun log m => ⟨.error e, m, [], rfl, by rw [List.append_nil]; rfl, .nil m h nofun⟩

theorem bind (h : Records begins x y) (rest : ∀ a, Records [] (f a) (g a)) :
    Records begins (x >>= f) (y >>= g) := by
  intro log m
  obtain ⟨r, m₁, new, checked, recorded, accounts⟩ := h log m
  rw [run_bind, run_record_bind, checked, recorded]
  cases r with
  | error e => exact ⟨.error e, m₁, new, rfl, rfl, accounts⟩
  | ok a =>
      obtain ⟨r, m', new', checked, recorded, accounts'⟩ := rest a (log ++ new) m₁
      refine ⟨r, m', new ++ new', checked, ?_, .append (accounts.congr fun _ => rfl) accounts'⟩
      rw [← List.append_assoc]
      exact recorded

theorem forM {f : σ → Recorder Unit} {g : σ → Verifier Unit} {ss : List σ}
    (each : ∀ s, Records [] (f s) (g s)) : Records [] (ss.forM f) (ss.forM g) := by
  induction ss with
  | nil => exact pure ()
  | cons s ss ih => exact (each s).bind fun _ => ih

theorem refuse (i : Nat) (d : Option Defect) : Records [] (silent (refuse i d)) (refuse i d) := by
  cases d with
  | none => exact pure ()
  | some d => exact throw _ (Nat.zero_le 1)

theorem cursor (payload : ByteArray) (i : Nat) :
    Records [] (liftM (Cursor.decode payload i)) (liftM (Cursor.decode payload i)) := by
  cases Cursor.decode payload i with
  | ok c => exact pure c
  | error e => exact throw e (Nat.zero_le 1)

/-- Nothing is put down where a walk goes deeper. -/
theorem enter {d : Descent} {f : Descent → Recorder β} {g : Descent → Verifier β}
    (h : begins.length ≤ 1) (inside : ∀ d, Records begins (f d) (g d)) :
    Records begins (silent (enter d) >>= f) (enter d >>= g) := by
  rw [Verify.enter]
  cases d.enter with
  | ok d => exact inside d
  | error e => exact throw _ h

/-- After a step the walk begins at its target. -/
theorem step {i j : Nat} (forward : i < j) (h : Records [j] x y) :
    Records [] (note (.step i j) >>= fun _ => x) y := by
  intro log m
  obtain ⟨r, m', new, checked, recorded, accounts⟩ := h (log ++ [.step i j]) m
  refine ⟨r, m', .step i j :: new, checked, ?_, accounts.fresh, accounts.marks,
    fun i' j' mem => ?_, accounts.order⟩
  · rw [List.append_cons]
    exact recorded
  · obtain first | mem := List.mem_cons.1 mem
    · cases first
      exact forward
    · exact accounts.forward i' j' mem

/-- What a walk begins at is marked and decoded, unless it was marked before. -/
theorem decode {i : Nat} (h : Records [] x y) :
    Records [i] (silent (mark i) >>= fun _ => note (.decode i) >>= fun _ => x)
      (mark i >>= fun _ => y) := by
  intro log m
  rw [run_bind, run_record_bind, run_silent, run_mark]
  rcases seen : m.seen[i]? with _ | _ | _
  · exact ⟨_, m, [], rfl, by rw [List.append_nil], .nil m (Nat.le_refl 1) nofun⟩
  · obtain ⟨r, m', new, checked, recorded, accounts⟩ := h (log ++ [.decode i]) (m.mark i)
    obtain ⟨left, order, bound, empty⟩ := accounts.order
    refine ⟨r, m', .decode i :: new, checked, ?_, ⟨seen, accounts.fresh⟩, accounts.marks,
      fun i' j' mem => ?_, left, congrArg (i :: ·) order, bound, empty⟩
    · rw [List.append_cons]
      exact recorded
    · obtain first | mem := List.mem_cons.1 mem
      · cases first
      · exact accounts.forward i' j' mem
  · exact ⟨_, m, [], rfl, by rw [List.append_nil], .nil m (Nat.le_refl 1) nofun⟩

theorem visit (payload : ByteArray) (i : Nat) :
    Records [i] (recordVisit payload i) (visit payload i) :=
  decode <| (cursor payload i).bind fun c => (refuse i (textDefect c.record)).bind fun _ => pure c

/-- Recording a walk changes nothing in it, and the log accounts for the walk. -/
theorem items (payload : ByteArray) (extensions : Bool) (d : Descent) (scope : Scope) (i : Nat) :
    Records [i] (recordItems payload extensions d scope i)
      (items payload extensions d scope i) := by
  -- Links lead forward, so what is left of the payload gets shorter at each of them.
  induction size : payload.size - i using Nat.strongRecOn generalizing d scope i with
  | _ n ih =>
      rw [recordItems, Verify.items]
      by_cases inside : i < payload.size
      · rw [dif_pos inside, dif_pos inside]
        have further (d : Descent) (scope : Scope) {offset : UInt32} (present : offset ≠ 0) :
            Records [i + offset.toNat] (recordItems payload extensions d scope (i + offset.toNat))
              (Verify.items payload extensions d scope (i + offset.toNat)) := by
          have := Bytes.toNat_pos present
          exact ih _ (by omega) d scope _ rfl
        have forward {offset : UInt32} (present : offset ≠ 0) : i < i + offset.toNat :=
          Nat.lt_add_of_pos_right (Bytes.toNat_pos present)
        refine (visit payload i).bind fun item => (refuse i _).bind fun _ => .bind ?_ fun _ => ?_
        · refine forM fun slot => ?_
          by_cases present : slot.content = 0
          · rw [dif_pos present, dif_pos present]
            exact refuse i _
          · rw [dif_neg present, dif_neg present]
            exact (refuse i _).bind fun _ => step (forward present) <|
              enter (Nat.le_refl 1) fun d => further d _ present
        · by_cases present : item.nextOffset = 0
          · rw [dif_pos present, dif_pos present]
            exact pure ()
          · rw [dif_neg present, dif_neg present]
            exact (refuse i _).bind fun _ => step (forward present) (further d scope present)
      · rw [dif_neg inside, dif_neg inside]
        exact throw _ (Nat.le_refl 1)

end Records

theorem Marks.decoded_after (m : Marks) (is : List Nat) :
    (m.after is).decoded = m.decoded + is.length := by
  induction is generalizing m with
  | nil => rfl
  | cons i is ih =>
      have marked : (m.mark i).decoded = m.decoded + 1 := rfl
      rw [after, ih, marked, List.length_cons]
      omega

theorem Marks.seen_after (m : Marks) (is : List Nat) (j : Nat) :
    (m.after is).seen[j]? = some true ↔
      m.seen[j]? = some true ∨ j ∈ is ∧ j < m.seen.size := by
  induction is generalizing m with
  | nil => simp [after]
  | cons i is ih =>
      rw [after, ih]
      simp only [mark, Array.set!_eq_setIfInBounds, Array.getElem?_setIfInBounds,
        Array.size_setIfInBounds, List.mem_cons]
      by_cases same : i = j
      · subst same
        by_cases inside : i < m.seen.size <;> simp [inside]
      · simp [same, Ne.symm same]

end Verify

open Verify in
/-- The check of any bytes under any limits decodes no more items than there are bytes and takes no
more steps than it decodes items. It decodes the positions that it marks, none of them twice, and
each step leads to a higher position. In what is accepted it decodes the first item and each item
that a step led to. -/
theorem verify_decodes_once (payload : ByteArray) (extensions : Bool) (limits : Limits) :
    ∃ log, record payload extensions limits =
        ((verify payload extensions limits, log), (run payload extensions limits).2) ∧
      (decodes log).Nodup ∧ (∀ i ∈ decodes log, i < payload.size) ∧
      (run payload extensions limits).2.decoded = (decodes log).length ∧
      (∀ i, (run payload extensions limits).2.seen[i]? = some true ↔ i ∈ decodes log) ∧
      (decodes log).length ≤ payload.size ∧
      (∀ i j, .step i j ∈ log → i < j) ∧
      (targets log).length ≤ (decodes log).length ∧
      (verify payload extensions limits = .ok () → decodes log = 0 :: targets log) := by
  have walked : Records [0]
      (do recordItems payload extensions (← silent (enter limits.descent)) .top 0)
      (do items payload extensions (← enter limits.descent) .top 0) :=
    .enter (Nat.le_refl 1) fun d => .items payload extensions d .top 0
  obtain ⟨r, m, log, checked, recorded, accounts⟩ :=
    walked [] { seen := .replicate payload.size false }
  have checked : run payload extensions limits = (r, m) := checked
  have recorded : record payload extensions limits = ((r, log), m) := recorded
  have outcome : verify payload extensions limits = r := congrArg Prod.fst checked
  obtain ⟨nodup, unmarked⟩ := (Marks.fresh_iff _ _).1 accounts.fresh
  have inside (i : Nat) (mem : i ∈ decodes log) : i < payload.size := by
    obtain ⟨inside, _⟩ := Array.getElem?_eq_some_iff.1 (unmarked i mem)
    simpa using inside
  have few : (decodes log).length ≤ payload.size := by
    have range := nodup.subperm fun i mem => List.mem_range.2 (inside i mem)
    simpa using range.length_le
  obtain ⟨left, order, bound, empty⟩ := accounts.order
  rw [recorded, outcome, checked]
  refine ⟨log, rfl, nodup, inside, ?_, fun i => ?_, few, accounts.forward, ?_, fun accepted => ?_⟩
  · rw [accounts.marks, Marks.decoded_after, Nat.zero_add]
  · rw [accounts.marks, Marks.seen_after]
    simpa [Array.getElem?_replicate] using inside i
  · have lengths := congrArg List.length order
    rw [List.length_append, List.length_append, List.length_singleton] at lengths
    omega
  · rw [empty (by rw [accepted]; rfl), List.append_nil] at order
    exact order.symm

/-- `$ == $` where both sides are one item, which is not decoded again. -/
example : (Verify.record ⟨#[8, 0, 0, 0, 0, 0, 0, 0, 16, 0, 0, 0, 16, 0, 0, 0,
      27, 0, 0, 0, 0, 0, 0, 0]⟩ false {}).1.2 =
    [.decode 0, .step 0 16, .decode 16, .step 0 16] := by
  decide +kernel

end FlatPath
