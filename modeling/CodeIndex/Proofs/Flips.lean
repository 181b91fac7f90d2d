import CodeIndex.Refresh.Pause

namespace CodeIndex.PauseSwitch

/-- The value of a switch after a step. -/
def Step.leaves (value : Bool) : Step → Bool
  | .set value _ => value
  | _ => value

/-- The value after some steps: the one set last, or else the one at the start. -/
def lastSet (paused : Bool) (steps : List Step) : Bool := steps.foldl Step.leaves paused

def Step.isSubscribe : Step → Bool
  | .subscribe _ => true
  | _ => false

def Step.isWait : Step → Bool
  | .wait _ => true
  | _ => false

/-- The number of receivers. -/
def subscribed (steps : List Step) : Nat := steps.countP Step.isSubscribe

/-- The number of waiters. -/
def waited (steps : List Step) : Nat := steps.countP Step.isWait

/-- Something began at one of the steps, and none of the later ones ended it. -/
def Since (begins : List Step → Step → Prop) (ends : Step → Prop) (steps : List Step) : Prop :=
  ∃ before step after, steps = before ++ step :: after ∧ begins before step ∧
    ∀ later ∈ after, ¬ ends later

/-- There was a flip when the receiver existed, and the receiver was not read since. -/
def Unseen (paused : Bool) (receiver : Nat) : List Step → Prop :=
  Since
    (fun before step => receiver < subscribed before ∧
      step.leaves (lastSet paused before) ≠ lastSet paused before)
    (· = .read receiver)

/-- The waiter existed and was polled while the switch was not paused. -/
def Ran (paused : Bool) (waiter : Nat) : List Step → Prop :=
  Since
    (fun before step => waiter < waited before ∧ step = .poll waiter ∧
      lastSet paused before = false)
    fun _ => False

section
variable {begins : List Step → Step → Prop} {ends : Step → Prop} {steps : List Step} {a : Step}

theorem since_snoc :
    Since begins ends (steps ++ [a]) ↔ begins steps a ∨ Since begins ends steps ∧ ¬ ends a := by
  constructor
  · rintro ⟨before, step, after, hsplit, hbegins, hnone⟩
    rcases List.eq_nil_or_concat after with rfl | ⟨after, last, rfl⟩
    · obtain ⟨rfl, hlast⟩ := List.append_inj' hsplit rfl
      obtain rfl := List.singleton_inj.mp hlast
      exact .inl hbegins
    · rw [List.concat_eq_append, ← List.cons_append, ← List.append_assoc] at hsplit
      obtain ⟨rfl, hlast⟩ := List.append_inj' hsplit rfl
      obtain rfl := List.singleton_inj.mp hlast
      rw [List.concat_eq_append] at hnone
      exact .inr ⟨⟨before, step, after, rfl, hbegins, fun later hlater =>
        hnone later (List.mem_append_left _ hlater)⟩, hnone a (by simp)⟩
  · rintro (hbegins | ⟨⟨before, step, after, rfl, hbegins, hnone⟩, ha⟩)
    · exact ⟨steps, a, [], rfl, hbegins, by simp⟩
    · refine ⟨before, step, after ++ [a], by simp, hbegins, fun later hlater => ?_⟩
      rcases List.mem_append.mp hlater with hlater | hlater
      · exact hnone later hlater
      · exact List.mem_singleton.mp hlater ▸ ha

end

section
variable {paused : Bool} {steps : List Step}

theorem last_set_snoc (a : Step) :
    lastSet paused (steps ++ [a]) = a.leaves (lastSet paused steps) := by
  simp [lastSet]

theorem subscribed_snoc (a : Step) :
    subscribed (steps ++ [a]) = subscribed steps + if a.isSubscribe then 1 else 0 := by
  simp [subscribed, List.countP_cons]

theorem waited_snoc (a : Step) :
    waited (steps ++ [a]) = waited steps + if a.isWait then 1 else 0 := by
  simp [waited, List.countP_cons]

theorem Unseen.exists_receiver {r : Nat} (h : Unseen paused r steps) : r < subscribed steps := by
  obtain ⟨before, step, after, rfl, ⟨hr, -⟩, -⟩ := h
  exact Nat.lt_of_lt_of_le hr (List.Sublist.countP_le (List.sublist_append_left _ _))

theorem Ran.exists_waiter {w : Nat} (h : Ran paused w steps) : w < waited steps := by
  obtain ⟨before, step, after, rfl, ⟨hw, -⟩, -⟩ := h
  exact Nat.lt_of_lt_of_le hw (List.Sublist.countP_le (List.sublist_append_left _ _))

theorem Ran.append {w : Nat} (h : Ran paused w steps) (more : List Step) :
    Ran paused w (steps ++ more) := by
  obtain ⟨before, step, after, rfl, hran, -⟩ := h
  exact ⟨before, step, after ++ more, by simp, hran, fun _ _ => not_false⟩

end

section
variable {s : PauseSwitch} {a : Step}

theorem step_paused : (s.step a).2.paused = a.leaves s.paused := by
  cases a with
  | set value _ =>
    show (s.set value).paused = value
    unfold PauseSwitch.set
    split
    · assumption
    · rfl
  | _ => rfl

/-- The flips go up with a flip, and only then. -/
theorem step_flips :
    (s.step a).2.flips = s.flips + if a.leaves s.paused = s.paused then 0 else 1 := by
  cases a with
  | set value _ =>
    show (s.set value).flips = s.flips + if value = s.paused then 0 else 1
    unfold PauseSwitch.set
    by_cases h : s.paused = value
    · rw [if_pos h, if_pos h.symm, Nat.add_zero]
    · rw [if_neg h, if_neg (Ne.symm h)]
  | _ => simp [step, Step.leaves]

theorem set_receivers (value : Bool) : (s.set value).receivers = s.receivers := by
  unfold PauseSwitch.set
  split <;> rfl

theorem set_waiters (value : Bool) : (s.set value).waiters = s.waiters := by
  unfold PauseSwitch.set
  split <;> rfl

theorem step_subscribed : (s.step a).2.receivers.length =
    s.receivers.length + if a.isSubscribe then 1 else 0 := by
  cases a <;> simp [step, Step.isSubscribe, set_receivers]

theorem step_waited : (s.step a).2.waiters.length =
    s.waiters.length + if a.isWait then 1 else 0 := by
  cases a <;> simp [step, Step.isWait, set_waiters]

theorem getElem?_snoc {l : List α} {x y : α} {i : Nat} (h : (l ++ [x])[i]? = some y) :
    l[i]? = some y ∨ i = l.length ∧ y = x := by
  rw [List.getElem?_append] at h
  split at h
  · exact .inl h
  · obtain ⟨hi, rfl⟩ := List.getElem?_eq_some_iff.mp h
    rw [List.length_singleton] at hi
    exact .inr ⟨by omega, by simp⟩

/-- A receiver after a step was there before, perhaps to be read by it, or is new. -/
theorem step_receiver {r seen : Nat} (h : (s.step a).2.receivers[r]? = some seen) :
    (∃ old, s.receivers[r]? = some old ∧ seen = if a = .read r then s.flips else old) ∨
      (a.isSubscribe ∧ r = s.receivers.length ∧ seen = s.flips) := by
  cases a with
  | subscribe _ =>
    rcases getElem?_snoc h with hold | hnew
    · exact .inl ⟨seen, hold, rfl⟩
    · exact .inr ⟨rfl, hnew⟩
  | read r' =>
    change (s.receivers.set r' s.flips)[r]? = some seen at h
    rw [List.getElem?_set] at h
    by_cases hr : r' = r
    · subst hr
      rw [if_pos rfl] at h
      split at h
      · rename_i hlt
        obtain rfl := Option.some.inj h
        exact .inl ⟨_, List.getElem?_eq_getElem hlt, (if_pos rfl).symm⟩
      · contradiction
    · rw [if_neg hr] at h
      exact .inl ⟨seen, h, by simp [hr]⟩
  | set value _ =>
    change (s.set value).receivers[r]? = some seen at h
    rw [set_receivers] at h
    exact .inl ⟨seen, h, rfl⟩
  | _ => exact .inl ⟨seen, h, rfl⟩

/-- A waiter after a step was there before, perhaps to be polled by it, or is new. -/
theorem step_waiter {w : Nat} {x : Waiter} (h : (s.step a).2.waiters[w]? = some x) :
    (∃ old, s.waiters[w]? = some old ∧ x = if a = .poll w then s.polled old else old) ∨
      (a.isWait ∧ w = s.waiters.length ∧ x = .created) := by
  cases a with
  | wait _ =>
    rcases getElem?_snoc h with hold | hnew
    · exact .inl ⟨x, hold, rfl⟩
    · exact .inr ⟨rfl, hnew⟩
  | poll w' =>
    change (s.waiters.modify w' s.polled)[w]? = some x at h
    rw [List.getElem?_modify] at h
    obtain ⟨old, hold, rfl⟩ := Option.map_eq_some_iff.mp h
    exact .inl ⟨old, hold, by simp⟩
  | set value _ =>
    change (s.set value).waiters[w]? = some x at h
    rw [set_waiters] at h
    exact .inl ⟨x, h, rfl⟩
  | _ => exact .inl ⟨x, h, rfl⟩

end

/-- A waiter that waits has seen the switch paused, and unless there was a flip it still is. -/
def Waiter.Awaits (s : PauseSwitch) (x : Waiter) : Prop :=
  ∀ seen, x = .waiting seen → seen ≤ s.flips ∧ (seen = s.flips → s.paused)

section
variable {s : PauseSwitch} {x : Waiter}

/-- Without a flip nothing is missed by not looking: a poll finishes a waiter exactly if the switch
is not paused. -/
theorem polled_finished (h : Waiter.Awaits s x) :
    (s.polled x).isFinished ↔ x.isFinished ∨ s.paused = false := by
  have hlook : s.look.isFinished ↔ s.paused = false := by
    unfold look
    cases s.paused <;> simp [Waiter.isFinished]
  cases x with
  | created => simpa [polled, Waiter.isFinished] using hlook
  | finished => simp [polled, Waiter.isFinished]
  | waiting seen =>
    by_cases hseen : seen = s.flips
    · have hpaused : s.paused = true := (h seen rfl).2 hseen
      simp [polled, hseen, Waiter.isFinished, hpaused]
    · simpa [polled, hseen, Waiter.isFinished] using hlook

theorem look_awaits : Waiter.Awaits s s.look := by
  intro seen hwaiting
  unfold look at hwaiting
  split at hwaiting
  · cases hwaiting
    exact ⟨Nat.le_refl _, fun _ => ‹_›⟩
  · cases hwaiting

theorem polled_awaits (h : Waiter.Awaits s x) : Waiter.Awaits s (s.polled x) := by
  cases x with
  | created => exact look_awaits
  | finished => exact h
  | waiting seen =>
    by_cases hseen : seen = s.flips
    · simpa only [polled, hseen, if_true] using h
    · simpa only [polled, hseen, if_false] using look_awaits

/-- A step can only unpause a switch by a flip. -/
theorem Waiter.Awaits.step {a : Step} (h : Waiter.Awaits s x) : Waiter.Awaits (s.step a).2 x := by
  intro seen hx
  obtain ⟨hle, hpaused⟩ := h seen hx
  rw [step_flips, step_paused]
  by_cases hflip : a.leaves s.paused = s.paused
  · rw [if_pos hflip, hflip]
    exact ⟨hle, hpaused⟩
  · rw [if_neg hflip]
    exact ⟨by omega, fun hseen => by omega⟩

end

/-- The state of a switch tells of its past what its receivers and waiters need to know. -/
structure Recalls (paused : Bool) (steps : List Step) (s : PauseSwitch) : Prop where
  value : s.paused = lastSet paused steps
  receivers : s.receivers.length = subscribed steps
  waiters : s.waiters.length = waited steps
  seen : ∀ r seen, s.receivers[r]? = some seen →
    seen ≤ s.flips ∧ (seen ≠ s.flips ↔ Unseen paused r steps)
  ran : ∀ w x, s.waiters[w]? = some x →
    Waiter.Awaits s x ∧ (x.isFinished ↔ Ran paused w steps)

namespace Recalls

variable {paused : Bool} {steps : List Step} {s : PauseSwitch}

theorem start (paused : Bool) : Recalls paused [] (start paused) where
  value := rfl
  receivers := rfl
  waiters := rfl
  seen r seen h := by simp [PauseSwitch.start] at h
  ran w x h := by simp [PauseSwitch.start] at h

theorem seen_step (h : Recalls paused steps s) {a : Step} {r seen : Nat}
    (hr : (s.step a).2.receivers[r]? = some seen) :
    seen ≤ (s.step a).2.flips ∧ (seen ≠ (s.step a).2.flips ↔ Unseen paused r (steps ++ [a])) := by
  rw [step_flips, h.value]
  unfold Unseen
  rw [since_snoc]
  rcases step_receiver hr with ⟨old, hold, rfl⟩ | ⟨hnew, rfl, rfl⟩
  · have hexists : r < subscribed steps :=
      h.receivers ▸ (List.getElem?_eq_some_iff.mp hold).1
    obtain ⟨hle, hunseen⟩ := h.seen r old hold
    by_cases hread : a = .read r
    · subst hread
      simp [Step.leaves]
    · rw [if_neg hread]
      by_cases hflip : a.leaves (lastSet paused steps) = lastSet paused steps
      · simp only [hflip, if_true, Nat.add_zero, ne_eq, not_true, and_false, false_or, hread,
          not_false_eq_true, and_true]
        exact ⟨hle, hunseen⟩
      · simp only [hflip, if_false, ne_eq, not_false_eq_true, hexists, and_self, true_or, iff_true]
        omega
  · have hflip : a.leaves (lastSet paused steps) = lastSet paused steps := by
      cases a with
      | subscribe _ => rfl
      | _ => cases hnew
    have hfresh : ¬ s.receivers.length < subscribed steps := by
      rw [h.receivers]
      exact Nat.lt_irrefl _
    have hseen : ¬ Unseen paused s.receivers.length steps := fun hunseen =>
      hfresh hunseen.exists_receiver
    rw [if_pos hflip]
    refine ⟨Nat.le_refl _, iff_of_false (fun hne => hne rfl) ?_⟩
    rintro (⟨hlt, -⟩ | ⟨hunseen, -⟩)
    · exact hfresh hlt
    · exact hseen hunseen

theorem ran_step (h : Recalls paused steps s) {a : Step} {w : Nat} {x : Waiter}
    (hw : (s.step a).2.waiters[w]? = some x) :
    Waiter.Awaits (s.step a).2 x ∧ (x.isFinished ↔ Ran paused w (steps ++ [a])) := by
  unfold Ran
  rw [since_snoc]
  rcases step_waiter hw with ⟨old, hold, rfl⟩ | ⟨hnew, rfl, rfl⟩
  · have hexists : w < waited steps := h.waiters ▸ (List.getElem?_eq_some_iff.mp hold).1
    obtain ⟨hawaits, hran⟩ := h.ran w old hold
    by_cases hpoll : a = .poll w
    · subst hpoll
      rw [if_pos rfl, polled_finished hawaits, hran, h.value]
      exact ⟨(polled_awaits hawaits).step, by simp [hexists, Ran, or_comm]⟩
    · rw [if_neg hpoll]
      exact ⟨hawaits.step, by simp [hpoll, hran, Ran]⟩
  · have hfresh : ¬ s.waiters.length < waited steps := by
      rw [h.waiters]
      exact Nat.lt_irrefl _
    refine ⟨fun seen hwaiting => (by cases hwaiting), iff_of_false (by simp [Waiter.isFinished]) ?_⟩
    rintro (⟨hlt, -⟩ | ⟨hran, -⟩)
    · exact hfresh hlt
    · exact hfresh (Ran.exists_waiter hran)

theorem step (h : Recalls paused steps s) (a : Step) :
    Recalls paused (steps ++ [a]) (s.step a).2 where
  value := by rw [step_paused, last_set_snoc, h.value]
  receivers := by rw [step_subscribed, subscribed_snoc, h.receivers]
  waiters := by rw [step_waited, waited_snoc, h.waiters]
  seen _ _ hr := h.seen_step hr
  ran _ _ hw := h.ran_step hw

theorem run (h : Recalls paused steps s) (more : List Step) :
    Recalls paused (steps ++ more) (s.run more).2 := by
  induction more generalizing steps s with
  | nil => simpa [PauseSwitch.run] using h
  | cons a more ih => simpa [PauseSwitch.run] using ih (h.step a)

theorem has_changed_iff (h : Recalls paused steps s) (r : Nat) :
    s.hasChanged r ↔ Unseen paused r steps := by
  unfold hasChanged
  cases hr : s.receivers[r]? with
  | none =>
    have hnone : ¬ Unseen paused r steps := fun hunseen =>
      absurd hunseen.exists_receiver
        (Nat.not_lt.mpr (h.receivers ▸ List.getElem?_eq_none_iff.mp hr))
    simpa using hnone
  | some seen => simpa using (h.seen r seen hr).2

theorem is_finished_iff (h : Recalls paused steps s) (w : Nat) :
    s.isFinished w ↔ Ran paused w steps := by
  unfold isFinished
  cases hw : s.waiters[w]? with
  | none =>
    have hnone : ¬ Ran paused w steps := fun hran =>
      absurd hran.exists_waiter
        (Nat.not_lt.mpr (h.waiters ▸ List.getElem?_eq_none_iff.mp hw))
    simpa using hnone
  | some x => exact (h.ran w x hw).2

end Recalls

theorem run_snoc (s : PauseSwitch) (steps : List Step) (a : Step) :
    (s.run (steps ++ [a])).1 = (s.run steps).1 ++ [((s.run steps).2.step a).1] := by
  induction steps generalizing s with
  | nil => rfl
  | cons b steps ih => simp [run, ih]

/-- What the last of some steps answers, with the others before it. -/
def lastAnswer (paused : Bool) (steps : List Step) (last : Step) : Option Answer :=
  ((start paused).run (steps ++ [last])).1.getLast?

theorem last_answer_eq (paused : Bool) (steps : List Step) (last : Step) :
    lastAnswer paused steps last = some (((start paused).run steps).2.step last).1 := by
  rw [lastAnswer, run_snoc, List.getLast?_concat]

theorem last_flag_iff {paused : Bool} {steps : List Step} {last : Step} {b : Bool}
    (h : (((start paused).run steps).2.step last).1 = .flag b) :
    lastAnswer paused steps last = some (.flag true) ↔ b := by
  simp [last_answer_eq, h]

/-- After any steps every handle and every receiver reports the value that was set last; a receiver
has changes exactly if there was a flip since it was made and last read; and a waiter is finished,
and a poll says so, exactly if it was polled while the switch was not paused. It remains so. -/
theorem no_flip_lost (paused : Bool) (steps : List Step) :
    (∀ handle, lastAnswer paused steps (.isPaused handle) = some (.flag (lastSet paused steps))) ∧
    (∀ r, lastAnswer paused steps (.read r) = some (.flag (lastSet paused steps))) ∧
    (∀ r, lastAnswer paused steps (.changed r) = some (.flag true) ↔ Unseen paused r steps) ∧
    ∀ w, (((start paused).run steps).2.isFinished w ↔ Ran paused w steps) ∧
      (lastAnswer paused steps (.poll w) = some (.flag true) ↔
        Ran paused w (steps ++ [.poll w])) ∧
      ∀ more, ((start paused).run steps).2.isFinished w →
        ((start paused).run (steps ++ more)).2.isFinished w := by
  have hrecalls : ∀ steps, Recalls paused steps ((start paused).run steps).2 := fun steps => by
    simpa using (Recalls.start paused).run steps
  have hvalue := (hrecalls steps).value
  refine ⟨fun handle => ?_, fun r => ?_, fun r => ?_, fun w => ⟨?_, ?_, fun more hfinished => ?_⟩⟩
  · rw [last_answer_eq, ← hvalue]
    rfl
  · rw [last_answer_eq, ← hvalue]
    rfl
  · exact (last_flag_iff rfl).trans ((hrecalls steps).has_changed_iff r)
  · exact (hrecalls steps).is_finished_iff w
  · exact (last_flag_iff rfl).trans (((hrecalls steps).step (.poll w)).is_finished_iff w)
  · have hran := ((hrecalls steps).is_finished_iff w).mp hfinished
    exact ((hrecalls _).is_finished_iff w).mpr (hran.append more)

/-- A flip there and back through two handles is seen, and a set to the present value is not. A
waiter that slept through it goes on waiting, and is finished for good with the next poll that finds
the switch not paused. -/
theorem no_flip_lost_there_and_back :
    let before : List Step := [.clone 0, .subscribe 1, .wait 0, .poll 0]
    let back := before ++ [.unpause 1, .pause 0, .pause 1]
    let run := back ++ [.read 0, .unpause 0, .poll 0, .pause 1]
    lastAnswer true back (.isPaused 1) = some (.flag true) ∧
    lastAnswer true before (.changed 0) = some (.flag false) ∧
    lastAnswer true back (.changed 0) = some (.flag true) ∧
    lastAnswer true back (.poll 0) = some (.flag false) ∧
    lastAnswer true run (.poll 0) = some (.flag true) := by
  intro before back run
  obtain ⟨hvalue, -, hchanged, -⟩ := no_flip_lost true back
  obtain ⟨-, -, -, hwaiter⟩ := no_flip_lost true run
  refine ⟨hvalue 1, by decide, (hchanged 0).mpr ?_, by decide, (hwaiter 0).2.1.mpr ?_⟩
  · exact ⟨before, .unpause 1, [.pause 0, .pause 1], rfl, by decide, by decide⟩
  · exact ⟨back ++ [.read 0, .unpause 0], .poll 0, [.pause 1, .poll 0], rfl, by decide, by decide⟩

end CodeIndex.PauseSwitch
