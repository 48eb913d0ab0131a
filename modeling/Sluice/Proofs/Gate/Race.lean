import Mathlib.Algebra.GroupWithZero.Nat
import Mathlib.Data.List.Perm.Basic
import Mathlib.Data.Nat.Init
import Sluice.Proofs.Loader.Signal

/-
  Callers that count failures at one gate at once. A call is made of three steps, between which
  other callers go on in any order: it counts its failure and keeps the number, notes the status if
  that is fatal, and wakes those who wait for a trip if loading must stop; with nothing in between
  this is `Gate.record` (`record_eq_steps`). `Step` says what one step can do, and `Sound`, which
  each of them keeps, what the gate and the callers hold of one another: the calls have the numbers
  from one on, so as many of them have a number past the ceiling as there are failures past it.
  What the gate reports under any schedule follows (`run_reports`).
-/

namespace Sluice

/-! ## The steps of a call -/

namespace Gate

/-- Counts a failure. -/
def bump (g : Gate) : Gate :=
  { g with failures := g.failures + 1 }

/-- Notes a status if it is fatal. -/
def note (g : Gate) (s : Status) : Gate :=
  { g with fatal := g.fatal || s.isFatal }

/-- Whether loading must stop because of the failure of a number. -/
def mustStop (g : Gate) (s : Status) (number : Nat) : Bool :=
  s.isFatal || g.exceeds number

/-- Wakes those who wait for a trip, if loading must stop. -/
def wake (g : Gate) (stop : Bool) : Gate :=
  { g with tripped := g.tripped || stop }

/-- A call that nothing comes between is its three steps in turn. -/
theorem record_eq_steps (g : Gate) (s : Status) :
    g.record s = (g.mustStop s g.bump.failures,
      ((g.bump.note s).wake (g.mustStop s g.bump.failures))) :=
  rfl

/-- Whether so many failures are more than tolerated; zero or less tolerates any number. -/
def Past (maxErrors : Int) (count : Nat) : Prop :=
  0 < maxErrors ∧ maxErrors < count

/-- The failures past those tolerated. -/
def surplus (maxErrors : Int) (count : Nat) : Nat :=
  if 0 < maxErrors then count - maxErrors.toNat else 0

/-- What a gate tells once so many failures were counted and these statuses looked at. -/
structure Reports (g : Gate) (maxErrors : Int) (looked : List Status) (count : Nat) : Prop where
  failures : g.failures = count
  limit : g.hasReachedLimit = true ↔ (∃ s ∈ looked, s.isFatal = true) ∨ Past maxErrors count
  fatal : g.trip = some .fatalStatus ↔ ∃ s ∈ looked, s.isFatal = true
  exhausted : g.trip = some .budgetExhausted ↔
    (∀ s ∈ looked, s.isFatal = false) ∧ Past maxErrors count

section
variable {g : Gate} {maxErrors : Int}

theorem exceeds_iff (h : g.ceiling = (ofMaxErrors maxErrors).ceiling) (count : Nat) :
    g.exceeds count = true ↔ Past maxErrors count := by
  unfold exceeds Past
  rw [h]
  unfold ofMaxErrors
  dsimp only
  split
  · rename_i hpos
    rw [Option.any_some, decide_eq_true_iff]
    omega
  · rename_i hpos
    exact ⟨nofun, fun hp => absurd hp.1 hpos⟩

theorem surplus_succ (h : g.ceiling = (ofMaxErrors maxErrors).ceiling) (count : Nat) :
    surplus maxErrors (count + 1) =
      surplus maxErrors count + (g.exceeds (count + 1)).toNat := by
  have hpast := exceeds_iff h (count + 1)
  unfold surplus
  unfold Past at hpast
  cases hx : g.exceeds (count + 1) with
  | true =>
    have hlt := hpast.mp hx
    rw [if_pos hlt.1, if_pos hlt.1, Bool.toNat_true]
    omega
  | false =>
    rw [hx] at hpast
    have hnot : ¬ (0 < maxErrors ∧ maxErrors < ((count + 1 : Nat) : Int)) :=
      fun hlt => Bool.false_ne_true (hpast.mpr hlt)
    rw [Bool.toNat_false]
    split
    · omega
    · rfl

/-- What a gate tells follows from what it holds. -/
theorem reports_of {looked : List Status} {count : Nat}
    (hc : g.ceiling = (ofMaxErrors maxErrors).ceiling) (hn : g.failures = count)
    (hf : g.fatal = looked.any Status.isFatal) : g.Reports maxErrors looked count := by
  have hany : g.fatal = true ↔ ∃ s ∈ looked, s.isFatal = true := by
    rw [hf, List.any_eq_true]
  have hpast : g.exceeds g.failures = true ↔ Past maxErrors count := by
    rw [hn]
    exact exceeds_iff hc count
  have hnone : g.fatal = false ↔ ∀ s ∈ looked, s.isFatal = false := by
    rw [hf, List.any_eq_false]
    exact forall₂_congr fun s _ => Bool.eq_false_iff.symm
  refine ⟨hn, ?_, ?_, ?_⟩
  · rw [hasReachedLimit_iff, hany, hpast]
  · rw [← hany]
    unfold trip
    by_cases hfatal : g.fatal = true
    · simp [hfatal]
    · by_cases hx : g.exceeds g.failures = true
      · simp [hfatal, hx]
      · simp [hfatal, hx]
  · rw [← hnone, ← hpast]
    unfold trip
    by_cases hfatal : g.fatal = true
    · simp [hfatal]
    · by_cases hx : g.exceeds g.failures = true
      · simp [hfatal, hx]
      · simp [hfatal, hx]

end

end Gate

/-! ## Callers -/

/-- A call whose failure has been counted. -/
structure Call where
  status : Status
  /-- The number that its failure has. -/
  number : Nat
  deriving DecidableEq, Repr

/-- How far the call of a caller has come. -/
inductive Progress where
  /-- No call is under way. -/
  | idle
  | counted (call : Call)
  | noted (call : Call)
  deriving DecidableEq, Repr

/-- One that counts failures at a gate, one call after another. -/
structure Caller where
  /-- The statuses of the calls to come. -/
  todo : List Status
  progress : Progress := .idle
  /-- The calls that have returned, and whether they told that loading must stop, the last one
  first. -/
  returned : List (Call × Bool) := []
  deriving DecidableEq, Repr

namespace Caller

/-- The next step of a caller. -/
def step (g : Gate) (c : Caller) : Gate × Caller :=
  match c.progress with
  | .idle => match c.todo with
    | [] => (g, c)
    | s :: rest =>
      (g.bump, { c with todo := rest, progress := .counted ⟨s, g.bump.failures⟩ })
  | .counted call => (g.note call.status, { c with progress := .noted call })
  | .noted call =>
    let stop := g.mustStop call.status call.number
    (g.wake stop, { c with progress := .idle, returned := (call, stop) :: c.returned })

/-- The calls made, the last one first. -/
def calls (c : Caller) : List Call :=
  match c.progress with
  | .idle => c.returned.map Prod.fst
  | .counted call | .noted call => call :: c.returned.map Prod.fst

/-- The calls whose status has been looked at. -/
def looked (c : Caller) : List Call :=
  match c.progress with
  | .idle | .counted _ => c.returned.map Prod.fst
  | .noted call => call :: c.returned.map Prod.fst

/-- The statuses of all calls, in order, those to come included. -/
def script (c : Caller) : List Status :=
  (c.calls.map Call.status).reverse ++ c.todo

/-- The steps still to come. -/
def left (c : Caller) : Nat :=
  3 * c.todo.length + match c.progress with
    | .idle => 0
    | .counted _ => 2
    | .noted _ => 1

theorem step_left (c : Caller) {g : Gate} (h : c.progress = .idle → c.todo ≠ []) :
    (c.step g).2.left < c.left := by
  obtain ⟨todo, progress, returned⟩ := c
  cases progress with
  | idle =>
    cases todo with
    | nil => exact absurd rfl (h rfl)
    | cons s todo =>
      show 3 * todo.length + 2 < 3 * (todo.length + 1) + 0
      omega
  | counted call => exact Nat.lt_succ_self _
  | noted call => exact Nat.lt_succ_self _

theorem calls_of_idle {c : Caller} (h : c.progress = .idle) :
    c.calls = c.returned.map Prod.fst := by
  unfold calls
  rw [h]

theorem looked_of_idle {c : Caller} (h : c.progress = .idle) : c.looked = c.calls := by
  unfold looked calls
  rw [h]

end Caller

/-- Callers at one gate. -/
structure Race where
  gate : Gate
  callers : List Caller
  deriving DecidableEq, Repr

namespace Race

/-- A gate that tolerates so many failures, and callers with the calls that each is to make. -/
def start (maxErrors : Int) (threads : List (List Status)) : Race :=
  { gate := .ofMaxErrors maxErrors
    callers := threads.map fun todo => { todo := todo } }

/-- The next step of one of the callers. -/
def step (r : Race) (i : Nat) : Race :=
  match r.callers[i]? with
  | none => r
  | some c => { gate := (c.step r.gate).1, callers := r.callers.set i (c.step r.gate).2 }

/-- Steps of the callers in the order of a schedule. -/
def run (r : Race) (schedule : List Nat) : Race :=
  schedule.foldl step r

/-- The schedule of whole calls, one after another. -/
def wholeCalls (order : List Nat) : List Nat :=
  order.flatMap (List.replicate 3)

/-- The calls made. -/
def calls (r : Race) : List Call :=
  r.callers.flatMap Caller.calls

/-- The statuses looked at. -/
def looked (r : Race) : List Status :=
  (r.callers.flatMap Caller.looked).map Call.status

/-- The calls that have returned, and what they told. -/
def returned (r : Race) : List (Call × Bool) :=
  r.callers.flatMap Caller.returned

/-- The calls that told that loading must stop. -/
def stops (r : Race) : Nat :=
  r.returned.countP Prod.snd

/-- No call is under way. -/
def Quiet (r : Race) : Prop :=
  ∀ c ∈ r.callers, c.progress = .idle

/-- All calls have returned. -/
def Done (r : Race) : Prop :=
  ∀ c ∈ r.callers, c.progress = .idle ∧ c.todo = []

instance (r : Race) : Decidable r.Quiet := inferInstanceAs (Decidable (∀ c ∈ r.callers, _))

instance (r : Race) : Decidable r.Done := inferInstanceAs (Decidable (∀ c ∈ r.callers, _))

/-! ## What one step can do -/

/-- A step of one of the callers, with those before and after it. -/
inductive Step : Race → Race → Prop where
  /-- There is nothing to do. -/
  | rest {r : Race} : Step r r
  | count {g : Gate} {before after : List Caller} {s : Status} {todo : List Status}
      {returned : List (Call × Bool)} :
      Step ⟨g, before ++ ⟨s :: todo, .idle, returned⟩ :: after⟩
        ⟨g.bump, before ++ ⟨todo, .counted ⟨s, g.bump.failures⟩, returned⟩ :: after⟩
  | note {g : Gate} {before after : List Caller} {call : Call} {todo : List Status}
      {returned : List (Call × Bool)} :
      Step ⟨g, before ++ ⟨todo, .counted call, returned⟩ :: after⟩
        ⟨g.note call.status, before ++ ⟨todo, .noted call, returned⟩ :: after⟩
  | wake {g : Gate} {before after : List Caller} {call : Call} {todo : List Status}
      {returned : List (Call × Bool)} :
      Step ⟨g, before ++ ⟨todo, .noted call, returned⟩ :: after⟩
        ⟨g.wake (g.mustStop call.status call.number), before ++ ⟨todo, .idle,
          (call, g.mustStop call.status call.number) :: returned⟩ :: after⟩

theorem step_of_caller {r : Race} {before after : List Caller} {c : Caller}
    (h : r.callers = before ++ c :: after) :
    r.step before.length = ⟨(c.step r.gate).1, before ++ (c.step r.gate).2 :: after⟩ := by
  unfold step
  rw [h, List.getElem?_append_right (Nat.le_refl _), Nat.sub_self, List.getElem?_cons_zero]
  dsimp only
  rw [List.set_append_right _ _ (Nat.le_refl _), Nat.sub_self, List.set_cons_zero]

/-- A caller has others before it and after it. -/
theorem exists_split {r : Race} {i : Nat} {c : Caller} (h : r.callers[i]? = some c) :
    ∃ before after, r.callers = before ++ c :: after ∧ before.length = i := by
  obtain ⟨hi, hget⟩ := List.getElem?_eq_some_iff.mp h
  refine ⟨r.callers.take i, r.callers.drop (i + 1), ?_, List.length_take_of_le (Nat.le_of_lt hi)⟩
  rw [← hget, List.getElem_cons_drop, List.take_append_drop]

theorem step_step (r : Race) (i : Nat) : Step r (r.step i) := by
  cases hc : r.callers[i]? with
  | none =>
    unfold step
    rw [hc]
    exact .rest
  | some c =>
    obtain ⟨before, after, hsplit, rfl⟩ := exists_split hc
    rw [step_of_caller hsplit]
    obtain ⟨g, callers⟩ := r
    dsimp only at hsplit ⊢
    subst hsplit
    obtain ⟨todo, progress, returned⟩ := c
    cases progress with
    | idle =>
      cases todo with
      | nil => exact .rest
      | cons s todo => exact .count
    | counted call => exact .note
    | noted call => exact .wake

/-! ## What every step keeps -/

/-- What the gate holds, and what the callers were told, is what their calls have left. -/
structure Sound (maxErrors : Int) (threads : List (List Status)) (r : Race) : Prop where
  ceiling : r.gate.ceiling = (Gate.ofMaxErrors maxErrors).ceiling
  failures : r.gate.failures = r.calls.length
  fatal : r.gate.fatal = r.looked.any Status.isFatal
  /-- Those who wait are woken with the first call that tells to stop. -/
  tripped : r.gate.tripped = r.returned.any Prod.snd
  told : ∀ p ∈ r.returned, p.2 = r.gate.mustStop p.1.status p.1.number
  numbers : ∀ c ∈ r.calls, c.number ≤ r.gate.failures
  /-- No two failures have one number, so just those past the ceiling exceed it. -/
  beyond : r.calls.countP (fun c => r.gate.exceeds c.number) =
    Gate.surplus maxErrors r.gate.failures
  /-- Each caller makes its calls in order. -/
  scripts : r.callers.map Caller.script = threads

theorem start_sound (maxErrors : Int) (threads : List (List Status)) :
    Sound maxErrors threads (start maxErrors threads) := by
  have hnone {α : Type} {f : Caller → List α} (hf : ∀ todo, f { todo := todo } = []) :
      (start maxErrors threads).callers.flatMap f = [] := by
    refine List.flatMap_eq_nil_iff.mpr fun c hc => ?_
    obtain ⟨todo, -, rfl⟩ := List.mem_map.mp hc
    exact hf todo
  have hcalls : (start maxErrors threads).calls = [] := hnone fun _ => rfl
  have hlooked : (start maxErrors threads).looked = [] := congrArg _ (hnone fun _ => rfl)
  have hreturned : (start maxErrors threads).returned = [] := hnone fun _ => rfl
  refine ⟨rfl, ?_, ?_, ?_, ?_, ?_, ?_, ?_⟩
  · rw [hcalls]
    rfl
  · rw [hlooked]
    rfl
  · rw [hreturned]
    rfl
  · rw [hreturned]
    exact nofun
  · rw [hcalls]
    exact nofun
  · rw [hcalls]
    show 0 = Gate.surplus maxErrors 0
    unfold Gate.surplus
    split
    · rw [Nat.zero_sub]
    · rfl
  · unfold start
    dsimp only
    rw [List.map_map]
    exact List.map_id _

section
variable {g : Gate} {before after : List Caller} {c : Caller}

theorem calls_split : (⟨g, before ++ c :: after⟩ : Race).calls =
    before.flatMap Caller.calls ++ (c.calls ++ after.flatMap Caller.calls) := by
  unfold calls
  rw [List.flatMap_append, List.flatMap_cons]

theorem looked_split : (⟨g, before ++ c :: after⟩ : Race).looked =
    (before.flatMap Caller.looked).map Call.status ++
      (c.looked.map Call.status ++ (after.flatMap Caller.looked).map Call.status) := by
  unfold looked
  rw [List.flatMap_append, List.flatMap_cons, List.map_append, List.map_append]

theorem returned_split : (⟨g, before ++ c :: after⟩ : Race).returned =
    before.flatMap Caller.returned ++ (c.returned ++ after.flatMap Caller.returned) := by
  unfold returned
  rw [List.flatMap_append, List.flatMap_cons]

/-- A step of a caller that leaves its calls as they are keeps what is told of them. -/
theorem Sound.of_calls {maxErrors : Int} {threads : List (List Status)} {g' : Gate} {c' : Caller}
    (h : Sound maxErrors threads ⟨g, before ++ c :: after⟩) (hcalls : c'.calls = c.calls)
    (hlooked : g'.fatal = (⟨g', before ++ c' :: after⟩ : Race).looked.any Status.isFatal)
    (hreturned : g'.tripped = (⟨g', before ++ c' :: after⟩ : Race).returned.any Prod.snd)
    (htold : ∀ p ∈ c'.returned, p ∈ c.returned ∨ p.2 = g.mustStop p.1.status p.1.number)
    (htodo : c'.todo = c.todo) (hceiling : g'.ceiling = g.ceiling)
    (hfailures : g'.failures = g.failures) :
    Sound maxErrors threads ⟨g', before ++ c' :: after⟩ := by
  have hsame : (⟨g', before ++ c' :: after⟩ : Race).calls =
      (⟨g, before ++ c :: after⟩ : Race).calls := by
    rw [calls_split, calls_split, hcalls]
  have hexceeds (n : Nat) : g'.exceeds n = g.exceeds n := by
    unfold Gate.exceeds
    rw [hceiling]
  refine ⟨hceiling.trans h.ceiling, ?_, hlooked, hreturned, fun p hp => ?_, fun c hc => ?_, ?_, ?_⟩
  · rw [hsame]
    exact hfailures.trans h.failures
  · have hp' : p ∈ (⟨g, before ++ c :: after⟩ : Race).returned ∨
        p.2 = g.mustStop p.1.status p.1.number := by
      rw [returned_split, List.mem_append, List.mem_append] at hp ⊢
      obtain hp | hp | hp := hp
      · exact Or.inl (Or.inl hp)
      · exact (htold p hp).imp_left fun hp => Or.inr (Or.inl hp)
      · exact Or.inl (Or.inr (Or.inr hp))
    have hmust : p.2 = g.mustStop p.1.status p.1.number := hp'.elim (h.told p) id
    show p.2 = (p.1.status.isFatal || g'.exceeds p.1.number)
    rw [hexceeds]
    exact hmust
  · rw [hsame] at hc
    exact Nat.le_trans (h.numbers c hc) (Nat.le_of_eq hfailures.symm)
  · rw [hsame]
    simp only [hexceeds, hfailures]
    exact h.beyond
  · rw [← h.scripts]
    unfold Caller.script
    dsimp only
    rw [List.map_append, List.map_append, List.map_cons, List.map_cons, hcalls, htodo]

end

section
variable {maxErrors : Int} {threads : List (List Status)} {r r' : Race}

/-- Every step keeps the account. -/
theorem Step.sound (hs : Step r r') (h : Sound maxErrors threads r) :
    Sound maxErrors threads r' := by
  cases hs with
  | rest => exact h
  | @count g before after s todo returned =>
    -- the failure gets the next number, and all other numbers are smaller
    have hcalls := h.failures
    have hnumbers := h.numbers
    have hbeyond := h.beyond
    have hlooked := h.fatal
    have htripped := h.tripped
    have htold := h.told
    have hscripts := h.scripts
    rw [calls_split] at hcalls hnumbers hbeyond
    rw [looked_split] at hlooked
    rw [returned_split] at htripped htold
    refine ⟨h.ceiling, ?_, ?_, ?_, ?_, ?_, ?_, ?_⟩
    · rw [calls_split]
      simp only [Caller.calls, List.length_append, List.length_cons] at hcalls ⊢
      show g.failures + 1 = _
      omega
    · rw [looked_split]
      exact hlooked
    · rw [returned_split]
      exact htripped
    · rw [returned_split]
      exact htold
    · rw [calls_split]
      intro call hcall
      show call.number ≤ g.failures + 1
      simp only [Caller.calls, List.cons_append, List.mem_append, List.mem_cons]
        at hcall hnumbers
      obtain hcall | rfl | hcall | hcall := hcall
      · exact Nat.le_succ_of_le (hnumbers call (Or.inl hcall))
      · exact Nat.le_refl _
      · exact Nat.le_succ_of_le (hnumbers call (Or.inr (Or.inl hcall)))
      · exact Nat.le_succ_of_le (hnumbers call (Or.inr (Or.inr hcall)))
    · have hnext := Gate.surplus_succ h.ceiling g.failures
      have hexceeds (n : Nat) : g.bump.exceeds n = g.exceeds n := rfl
      have hfailures : g.bump.failures = g.failures + 1 := rfl
      rw [calls_split]
      simp only [Caller.calls, List.countP_append, List.countP_cons, List.cons_append, hexceeds,
        hfailures] at hbeyond ⊢
      rw [hnext, ← hbeyond]
      cases g.exceeds (g.failures + 1) with
      | true =>
        rw [if_pos rfl, Bool.toNat_true]
        omega
      | false =>
        rw [if_neg Bool.false_ne_true, Bool.toNat_false]
        omega
    · rw [← hscripts]
      simp [Caller.script, Caller.calls]
  | @note g before after call todo returned =>
    refine h.of_calls rfl ?_ ?_ (fun p hp => Or.inl hp) rfl rfl rfl
    · have hfatal := h.fatal
      rw [looked_split] at hfatal ⊢
      show (g.fatal || call.status.isFatal) = _
      rw [show g.fatal = _ from hfatal]
      simp only [Caller.looked, List.map_cons, List.any_append, List.any_cons]
      grind
    · have htripped := h.tripped
      rw [returned_split] at htripped ⊢
      exact htripped
  | @wake g before after call todo returned =>
    refine h.of_calls rfl ?_ ?_ (fun p hp => ?_) rfl rfl rfl
    · have hfatal := h.fatal
      rw [looked_split] at hfatal ⊢
      exact hfatal
    · have htripped := h.tripped
      rw [returned_split] at htripped ⊢
      show (g.tripped || g.mustStop call.status call.number) = _
      rw [show g.tripped = _ from htripped]
      simp only [List.cons_append, List.any_append, List.any_cons]
      grind
    · obtain rfl | hp := List.mem_cons.mp hp
      · exact Or.inr rfl
      · exact Or.inl hp

/-- Every step adds to what the gate has counted and noted, and takes nothing from it. -/
theorem Step.grows (hs : Step r r') : r.gate.failures ≤ r'.gate.failures ∧
    (r.gate.hasReachedLimit = true → r'.gate.hasReachedLimit = true) := by
  rw [Gate.hasReachedLimit_iff, Gate.hasReachedLimit_iff]
  cases hs with
  | rest => exact ⟨Nat.le_refl _, id⟩
  | count =>
    exact ⟨Nat.le_succ _, Or.imp id (Gate.exceeds_mono (Nat.le_succ _))⟩
  | note =>
    refine ⟨Nat.le_refl _, Or.imp (fun hf => ?_) id⟩
    exact Bool.or_eq_true_iff.mpr (Or.inl hf)
  | wake => exact ⟨Nat.le_refl _, id⟩

/-! ## Schedules -/

theorem run_sound (h : Sound maxErrors threads r) (schedule : List Nat) :
    Sound maxErrors threads (r.run schedule) := by
  induction schedule generalizing r with
  | nil => exact h
  | cons i schedule ih => exact ih ((step_step r i).sound h)

theorem run_grows (r : Race) (schedule : List Nat) :
    r.gate.failures ≤ (r.run schedule).gate.failures ∧
      (r.gate.hasReachedLimit = true → (r.run schedule).gate.hasReachedLimit = true) := by
  induction schedule generalizing r with
  | nil => exact ⟨Nat.le_refl _, id⟩
  | cons i schedule ih =>
    obtain ⟨hcount, hlimit⟩ := (step_step r i).grows
    obtain ⟨hcounts, hlimits⟩ := ih (r.step i)
    exact ⟨Nat.le_trans hcount hcounts, hlimits ∘ hlimit⟩

/-! ## Between calls -/

theorem looked_of_quiet (hq : r.Quiet) : r.looked = r.calls.map Call.status :=
  congrArg _ (List.flatMap_congr fun c hc => Caller.looked_of_idle (hq c hc))

theorem returned_of_quiet (hq : r.Quiet) : r.returned.map Prod.fst = r.calls := by
  unfold returned calls
  rw [List.map_flatMap]
  exact List.flatMap_congr fun c hc => (Caller.calls_of_idle (hq c hc)).symm

/-- Those who wait are woken for no other reason than a trip. -/
theorem Sound.limit_of_tripped (h : Sound maxErrors threads r) (ht : r.gate.tripped = true) :
    r.gate.hasReachedLimit = true := by
  rw [h.tripped, List.any_eq_true] at ht
  obtain ⟨p, hp, hstop⟩ := ht
  rw [h.told p hp] at hstop
  obtain ⟨c, hc, hpc⟩ := List.mem_flatMap.mp hp
  have hmem : p.1 ∈ c.returned.map Prod.fst := List.mem_map_of_mem hpc
  rw [Gate.hasReachedLimit_iff]
  obtain hfatal | hx := Bool.or_eq_true_iff.mp hstop
  · left
    rw [h.fatal, List.any_eq_true]
    refine ⟨p.1.status, List.mem_map_of_mem (List.mem_flatMap.mpr ⟨c, hc, ?_⟩), hfatal⟩
    unfold Caller.looked
    split
    · exact hmem
    · exact hmem
    · exact List.mem_cons_of_mem _ hmem
  · right
    refine Gate.exceeds_mono (h.numbers p.1 (List.mem_flatMap.mpr ⟨c, hc, ?_⟩)) hx
    unfold Caller.calls
    split
    · exact hmem
    · exact List.mem_cons_of_mem _ hmem
    · exact List.mem_cons_of_mem _ hmem

/-- Between calls a trip has been signalled: the call that caused it has returned. -/
theorem Sound.signalled (h : Sound maxErrors threads r) (hq : r.Quiet) : r.gate.Signalled := by
  have told {call : Call} (hcall : call ∈ r.calls)
      (hmust : r.gate.mustStop call.status call.number = true) : r.gate.tripped = true := by
    rw [← returned_of_quiet hq] at hcall
    obtain ⟨p, hp, rfl⟩ := List.mem_map.mp hcall
    rw [h.tripped, List.any_eq_true]
    exact ⟨p, hp, (h.told p hp).trans hmust⟩
  refine Bool.eq_iff_iff.mpr ⟨h.limit_of_tripped, fun hlimit => ?_⟩
  obtain hfatal | hx := (Gate.hasReachedLimit_iff _).mp hlimit
  · rw [h.fatal, looked_of_quiet hq, List.any_eq_true] at hfatal
    obtain ⟨s, hs, hsfatal⟩ := hfatal
    obtain ⟨call, hcall, rfl⟩ := List.mem_map.mp hs
    exact told hcall (Bool.or_eq_true_iff.mpr (Or.inl hsfatal))
  · -- past the ceiling there is a surplus, so some call has a number past it
    have hpast := (Gate.exceeds_iff h.ceiling _).mp hx
    have hpos : 0 < r.calls.countP fun c => r.gate.exceeds c.number := by
      rw [h.beyond]
      unfold Gate.surplus
      obtain ⟨hbounded, hlt⟩ := hpast
      rw [if_pos hbounded]
      omega
    obtain ⟨call, hcall, hcx⟩ := List.countP_pos_iff.mp hpos
    exact told hcall (Bool.or_eq_true_iff.mpr (Or.inr hcx))

/-- If all failures are tolerable, those past the ceiling are told to stop, and no others. -/
theorem Sound.stops_of_tolerable (h : Sound maxErrors threads r) (hq : r.Quiet)
    (htolerable : ∀ c ∈ r.calls, c.status.isFatal = false) :
    r.stops = Gate.surplus maxErrors r.calls.length := by
  rw [← h.failures, ← h.beyond, ← returned_of_quiet hq, List.countP_map]
  refine List.countP_congr fun p hp => ?_
  have hmem : p.1 ∈ r.calls := by
    rw [← returned_of_quiet hq]
    exact List.mem_map_of_mem hp
  have htold := h.told p hp
  unfold Gate.mustStop at htold
  rw [htolerable p.1 hmem, Bool.false_or] at htold
  rw [htold]
  rfl

/-! ## One call after another -/

end

end Race

/-- What calls made one after another leave in a gate. -/
theorem Gate.recordAll_leaves (g : Gate) (statuses : List Status) :
    (g.recordAll statuses).2.ceiling = g.ceiling ∧
      (g.recordAll statuses).2.failures = g.failures + statuses.length ∧
      (g.recordAll statuses).2.fatal = (g.fatal || statuses.any Status.isFatal) ∧
      (g.Signalled → (g.recordAll statuses).2.Signalled) := by
  induction statuses generalizing g with
  | nil => exact ⟨rfl, rfl, (Bool.or_false _).symm, id⟩
  | cons s rest ih =>
    obtain ⟨hceiling, hfailures, hfatal, hsignalled⟩ := ih (g.record s).2
    refine ⟨hceiling, ?_, ?_, fun hg => hsignalled (hg.record s)⟩
    · show ((g.record s).2.recordAll rest).2.failures = _
      rw [hfailures, List.length_cons]
      show g.failures + 1 + rest.length = _
      omega
    · show ((g.record s).2.recordAll rest).2.fatal = _
      rw [hfatal, List.any_cons, ← Bool.or_assoc]
      rfl

namespace Race

section
variable {maxErrors : Int} {threads : List (List Status)} {r : Race}

/-- Between calls the gate is as if they had been made one after another, in any order. -/
theorem Sound.gate_of_quiet (h : Sound maxErrors threads r) (hq : r.Quiet)
    {statuses : List Status} (hs : (r.calls.map Call.status).Perm statuses) :
    r.gate = ((Gate.ofMaxErrors maxErrors).recordAll statuses).2 := by
  obtain ⟨hceiling, hfailures, hfatal, hsignalled⟩ :=
    Gate.recordAll_leaves (.ofMaxErrors maxErrors) statuses
  replace hsignalled := hsignalled (Gate.ofMaxErrors_signalled maxErrors)
  have hcount : r.gate.failures =
      ((Gate.ofMaxErrors maxErrors).recordAll statuses).2.failures := by
    rw [hfailures, h.failures, ← hs.length_eq, List.length_map]
    exact (Nat.zero_add _).symm
  have hany : r.gate.fatal = ((Gate.ofMaxErrors maxErrors).recordAll statuses).2.fatal := by
    rw [hfatal, h.fatal, looked_of_quiet hq, hs.any_eq]
    exact (Bool.false_or _).symm
  have hlimit : r.gate.hasReachedLimit =
      ((Gate.ofMaxErrors maxErrors).recordAll statuses).2.hasReachedLimit := by
    unfold Gate.hasReachedLimit Gate.trip Gate.exceeds
    rw [h.ceiling, hceiling, hcount, hany]
  have htripped : r.gate.tripped =
      ((Gate.ofMaxErrors maxErrors).recordAll statuses).2.tripped :=
    (h.signalled hq).trans (hlimit.trans hsignalled.symm)
  have hsame := h.ceiling.trans hceiling.symm
  generalize ((Gate.ofMaxErrors maxErrors).recordAll statuses).2 = g at *
  cases g
  cases hg : r.gate
  rw [hg] at hcount hany htripped hsame
  dsimp only at hcount hany htripped hsame
  rw [hcount, hany, htripped, hsame]

/-- Once all calls have returned, they are the calls that were to be made. -/
theorem Sound.statuses_of_done (h : Sound maxErrors threads r) (hd : r.Done) :
    (r.calls.map Call.status).Perm threads.flatten := by
  rw [← h.scripts, ← List.flatMap_def]
  unfold calls
  rw [List.map_flatMap]
  refine List.Perm.flatMap_left r.callers fun c hc => ?_
  unfold Caller.script
  rw [(hd c hc).2, List.append_nil]
  exact (List.reverse_perm _).symm

/-! ## Going on -/

/-- A call that nothing comes between is `Gate.record`. -/
theorem run_wholeCall {g : Gate} {before after : List Caller} {s : Status} {todo : List Status}
    {returned : List (Call × Bool)} :
    (⟨g, before ++ ⟨s :: todo, .idle, returned⟩ :: after⟩ : Race).run
        (List.replicate 3 before.length) =
      ⟨(g.record s).2, before ++ ⟨todo, .idle,
        (⟨s, g.failures + 1⟩, (g.record s).1) :: returned⟩ :: after⟩ := by
  have step_eq (g : Gate) (c : Caller) : (⟨g, before ++ c :: after⟩ : Race).step before.length =
      ⟨(c.step g).1, before ++ (c.step g).2 :: after⟩ :=
    step_of_caller rfl
  show ((Race.step _ _).step _).step _ = _
  rw [step_eq, step_eq, step_eq]
  rfl

/-- A step of a caller that has no call to make changes nothing. -/
theorem step_of_rest {i : Nat}
    (h : ∀ c, r.callers[i]? = some c → c.progress = .idle ∧ c.todo = []) : r.step i = r := by
  cases hc : r.callers[i]? with
  | none =>
    unfold step
    rw [hc]
  | some c =>
    obtain ⟨before, after, hsplit, rfl⟩ := exists_split hc
    obtain ⟨hidle, hnone⟩ := h c hc
    have hstep : c.step r.gate = (r.gate, c) := by
      unfold Caller.step
      rw [hidle, hnone]
    rw [step_of_caller hsplit, hstep, ← hsplit]

theorem Quiet.run_replicate (hq : r.Quiet) (i : Nat) : (r.run (List.replicate 3 i)).Quiet := by
  by_cases hrest : ∀ c, r.callers[i]? = some c → c.progress = .idle ∧ c.todo = []
  · show (((r.step i).step i).step i).Quiet
    rw [step_of_rest hrest, step_of_rest hrest, step_of_rest hrest]
    exact hq
  · simp only [not_forall, not_and] at hrest
    obtain ⟨c, hc, hbusy⟩ := hrest
    obtain ⟨before, after, hsplit, rfl⟩ := exists_split hc
    obtain ⟨g, callers⟩ := r
    dsimp only at hsplit
    subst hsplit
    have hidle : c.progress = .idle := hq c (List.mem_append_right _ List.mem_cons_self)
    obtain ⟨todo, progress, returned⟩ := c
    dsimp only at hidle hbusy
    subst hidle
    cases todo with
    | nil => exact absurd rfl (hbusy rfl)
    | cons s todo =>
      rw [run_wholeCall]
      intro c hc
      obtain hc | hc := List.mem_append.mp hc
      · exact hq c (List.mem_append_left _ hc)
      · obtain rfl | hc := List.mem_cons.mp hc
        · rfl
        · exact hq c (List.mem_append_right _ (List.mem_cons_of_mem _ hc))

/-- Whole calls leave no call under way. -/
theorem Quiet.run_wholeCalls (hq : r.Quiet) (order : List Nat) :
    (r.run (wholeCalls order)).Quiet := by
  induction order generalizing r with
  | nil => exact hq
  | cons i order ih =>
    have hrun : r.run (wholeCalls (i :: order)) =
        (r.run (List.replicate 3 i)).run (wholeCalls order) :=
      List.foldl_append
    rw [hrun]
    exact ih (hq.run_replicate i)

/-- The steps still to come. -/
def left (r : Race) : Nat :=
  (r.callers.map Caller.left).sum

/-- Callers can always go on until all calls have returned. -/
theorem exists_done (r : Race) : ∃ more, (r.run more).Done := by
  induction hn : r.left using Nat.strong_induction_on generalizing r with
  | _ n ih =>
    by_cases hd : r.Done
    · exact ⟨[], hd⟩
    · unfold Done at hd
      simp only [not_forall, not_and] at hd
      obtain ⟨c, hc, hbusy⟩ := hd
      obtain ⟨before, after, hsplit⟩ := List.append_of_mem hc
      have hleft : (r.step before.length).left < n := by
        rw [step_of_caller hsplit, ← hn]
        unfold left
        rw [hsplit]
        simp only [List.map_append, List.map_cons, List.sum_append, List.sum_cons]
        have hless : (c.step r.gate).2.left < c.left := c.step_left hbusy
        omega
      obtain ⟨more, hmore⟩ := ih _ hleft _ rfl
      exact ⟨before.length :: more, hmore⟩

/-! ## Any number of callers under any schedule -/

theorem start_quiet (maxErrors : Int) (threads : List (List Status)) :
    (start maxErrors threads).Quiet := by
  intro c hc
  obtain ⟨todo, -, rfl⟩ := List.mem_map.mp hc
  rfl

end

/-- Whatever callers count failures at a gate, and however their calls interleave: the gate
reports the calls made so far, and what it has told it does not take back. When no call is under
way, those who wait have been woken just if the gate has tripped; if then all failures are
tolerable, as many calls told to stop as there are failures past those tolerated. When all calls
have returned the gate is as if they had been made one after another. -/
theorem run_reports (maxErrors : Int) (threads : List (List Status)) (schedule : List Nat) :
    let r := (start maxErrors threads).run schedule
    r.gate.Reports maxErrors r.looked r.calls.length ∧
      (r.gate.tripped = true → r.gate.trip ≠ none) ∧
      (∀ more, r.gate.failures ≤ (r.run more).gate.failures ∧
        (r.gate.hasReachedLimit = true → (r.run more).gate.hasReachedLimit = true)) ∧
      (r.Quiet → r.looked = r.calls.map Call.status ∧
        (r.gate.tripped = true ↔ r.gate.trip ≠ none) ∧
        ((∀ s ∈ r.looked, s.isFatal = false) →
          r.stops = Gate.surplus maxErrors r.calls.length)) ∧
      (r.Done → (r.calls.map Call.status).Perm threads.flatten ∧
        ∀ order, order.Perm threads.flatten →
          r.gate = ((Gate.ofMaxErrors maxErrors).recordAll order).2) ∧
      (∃ more, (r.run more).Done) ∧
      ∀ order, ((start maxErrors threads).run (wholeCalls order)).Quiet := by
  intro r
  have hsound : Sound maxErrors threads r := run_sound (start_sound maxErrors threads) schedule
  refine ⟨Gate.reports_of hsound.ceiling hsound.failures hsound.fatal,
    fun ht => Gate.trip_ne_none (hsound.limit_of_tripped ht), run_grows r, fun hq => ?_,
    fun hd => ?_, exists_done r, (start_quiet maxErrors threads).run_wholeCalls⟩
  · refine ⟨looked_of_quiet hq, ?_, fun htolerable => ?_⟩
    · rw [show r.gate.tripped = _ from hsound.signalled hq]
      exact Option.isSome_iff_ne_none
    · refine hsound.stops_of_tolerable hq fun c hc => ?_
      rw [looked_of_quiet hq] at htolerable
      exact htolerable c.status (List.mem_map_of_mem hc)
  · have hperm := hsound.statuses_of_done hd
    have hq : r.Quiet := fun c hc => (hd c hc).1
    exact ⟨hperm, fun order horder => hsound.gate_of_quiet hq (hperm.trans horder.symm)⟩

/-- Three calls of two callers at a gate that tolerates one failure: the second failure is counted
while the call of the first is under way, and its call returns before that one. -/
theorem run_reports_interleaved :
    let r := (start 1 [[.gracefulFailure, .userAbort], [.gracefulFailure]]).run
      [0, 1, 1, 1, 0, 0, 0, 0, 0]
    r.gate.failures = 3 ∧ r.gate.trip = some .budgetExhausted ∧ r.gate.tripped = true ∧
      r.stops = 2 := by
  intro r
  obtain ⟨hreports, -, -, hquiet, -, -, -⟩ :=
    run_reports 1 [[.gracefulFailure, .userAbort], [.gracefulFailure]]
      [0, 1, 1, 1, 0, 0, 0, 0, 0]
  obtain ⟨-, hsignal, hstops⟩ := hquiet (by decide)
  have htrip : r.gate.trip = some .budgetExhausted :=
    hreports.exhausted.mpr ⟨by decide, by decide, by decide⟩
  refine ⟨hreports.failures, htrip, hsignal.mpr ?_, hstops (by decide)⟩
  rw [show ((start 1 _).run _).gate.trip = _ from htrip]
  exact Option.some_ne_none _

end Race

end Sluice
