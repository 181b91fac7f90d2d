import CodeIndex.Proofs.Pauses
import CodeIndex.Proofs.Protocol

namespace CodeIndex

namespace Run

variable {σ : Type} {h : Host σ} {s : Settings}

theorem take_of_item {r : Run} {st : Store} {w : σ} {t : Turn} {item : Progress}
    (hturn : ((r.next h s st).run w).1 = t) (hitem : t.item = some item) (most : Nat) : ∃ w',
      ((r.take h s (most + 1) st).run w).1 =
        (item :: ((t.run.take h s most t.store).run w').1.1,
          ((t.run.take h s most t.store).run w').1.2) := by
  rw [take, run_bind]
  generalize (r.next h s st).run w = answer at hturn
  obtain ⟨⟨item', r', st'⟩, w'⟩ := answer
  subst hturn
  cases hitem
  exact ⟨w', rfl⟩

theorem take_over {r : Run} (hover : r.isOver) (st : Store) (w : σ) (most : Nat) :
    ((r.take h s (most + 1) st).run w).1 = ([], .ended, r, st) := by
  rw [take, run_bind, next, is_over_iff.mp hover]
  simp only [run_pure, hover, if_true]

end Run

section
variable {σ τ : Type} {h : Host σ} {h₀ : Host τ} {files : Files} {s : Settings}
  {provider : List Text → Except ProviderError (List Embedding)} {plan : Plan}

/-- Pauses apart, a refresh that is watched has come as far as the one that is never paused, whose
outcome is told as a whole. -/
def Watch.Abreast (h₀ : Host τ) (s : Settings)
    (whole : List Progress × Run.Ending × Run × Store) (x : Watch σ) : Prop :=
  ∃ (r : Run) (most : Nat) (w₀ : τ), r.Going ∧ r.HeldAt x.run ∧ r.bound < most ∧
    whole = (x.unpaused ++ ((r.take h₀ s most x.store).run w₀).1.1,
      ((r.take h₀ s most x.store).run w₀).1.2)

theorem start_abreast {x : Watch σ} (hsights : x.sights = []) (hrun : x.run = .ofPlan plan)
    (w₀ : τ) : x.Abreast h₀ s (((Run.ofPlan plan).drain h₀ s x.store).run w₀).1 := by
  refine ⟨.ofPlan plan, _, w₀, ⟨by simp [Run.ofPlan], rfl⟩, by rw [hrun]; exact .same,
    Nat.lt_succ_self _, ?_⟩
  rw [Watch.unpaused, hsights]
  rfl

theorem Watch.Steps.abreast {whole : List Progress × Run.Ending × Run × Store} {r : Run}
    {x y : Watch σ} (hsteps : x.Steps h h₀ s r y) (hgoing : r.Going) (hat : r.HeldAt x.run)
    {most : Nat} {w₀ : τ} (hmost : r.bound < most)
    (hwhole : whole = (x.unpaused ++ ((r.take h₀ s most x.store).run w₀).1.1,
      ((r.take h₀ s most x.store).run w₀).1.2)) : y.Abreast h₀ s whole := by
  cases hsteps with
  | idle => exact ⟨r, most, w₀, hgoing, hat, hmost, hwhole⟩
  | hold hready hjobs =>
    refine ⟨r, most, w₀, hgoing, .held hready hjobs, hmost, ?_⟩
    rw [hwhole]
    simp [Watch.unpaused, Sight.item?, Progress.paused, Progress.plain]
  | wait =>
    refine ⟨r, most, w₀, hgoing, hat, hmost, ?_⟩
    rw [hwhole]
    simp [Watch.unpaused, Sight.item?]
  | @advance w seen t item hseen _ hturn hadvances =>
    obtain ⟨most, rfl⟩ := Nat.exists_eq_succ_of_ne_zero (Nat.ne_zero_of_lt hmost)
    obtain ⟨w₁, htake⟩ := Run.take_of_item (hturn w₀) hadvances.yields most
    refine ⟨t.run, most, w₁, hadvances.going, .same, ?_, ?_⟩
    · have hless := hadvances.less
      omega
    · have hnone : seen.filterMap Sight.item? = [] := List.filterMap_eq_nil_iff.mpr hseen
      rw [hwhole, htake]
      simp [Watch.unpaused, Sight.item?, hnone, hadvances.unpaused]

/-- A refresh that is over has come as far as the one that is never paused ever comes. -/
theorem Watch.Abreast.over {whole : List Progress × Run.Ending × Run × Store} {x : Watch σ}
    (hx : x.Abreast h₀ s whole) (hover : x.run.isOver) :
    whole = (x.unpaused, .ended, x.run, x.store) := by
  obtain ⟨r, most, w₀, hgoing, hat, hmost, hwhole⟩ := hx
  obtain ⟨most, rfl⟩ := Nat.exists_eq_succ_of_ne_zero (Nat.ne_zero_of_lt hmost)
  have hsame : x.run = r := by
    generalize hrun : x.run = r' at hat hover
    cases hat with
    | same => rfl
    | held => exact absurd (Run.is_over_iff.mp hover) (by simp)
  rw [hsame] at hover ⊢
  rw [hwhole, Run.take_over hover, List.append_nil]

/-- A poll of a refresh that is held either waits on or gets on. -/
theorem Watch.Steps.of_held {r : Run} {x y : Watch σ} (hsteps : x.Steps h h₀ s r y)
    (hgoing : r.Going) (hheld : x.run.stage = .held) :
    (h.holds x.world ∧ y.run = x.run ∧ y.world = h.waited x.world) ∨
      (y.run.Going ∧ y.run.bound < r.bound) := by
  cases hsteps with
  | idle hover => simp [Run.isOver, hheld] at hover
  | hold _ _ hsame => exact absurd hheld (hsame ▸ hgoing.1)
  | wait _ hon => exact Or.inl ⟨hon, rfl, rfl⟩
  | advance _ _ _ hadvances => exact Or.inr ⟨hadvances.going, hadvances.less⟩

variable (hh : h.Undisturbed files provider) (hh₀ : h₀.Undisturbed files provider)
  (hnever : ∀ w, (h₀.isPaused.run w).1 = false)
include hh hh₀ hnever

/-- However often a refresh is polled, it stays abreast. -/
theorem after_abreast {whole : List Progress × Run.Ending × Run × Store} {x : Watch σ}
    (hx : x.Abreast h₀ s whole) (n : Nat) : (x.after h s n).Abreast h₀ s whole := by
  induction n with
  | zero => exact hx
  | succ n ih =>
    obtain ⟨r, most, w₀, hgoing, hat, hmost, hwhole⟩ := ih
    exact (poll_steps hh hh₀ hnever hgoing hat).abreast hgoing hat hmost hwhole

/-- A refresh that is held gets on once the pause is lifted. -/
theorem held_ends {x : Watch σ} {r : Run} (hgoing : r.Going)
    (hends : ∀ m, (x.after h s m).run.Going → (x.after h s m).run.bound < r.bound →
      ∃ n, (x.after h s n).run.isOver) {v : σ} (hlifts : h.Lifts v) {m : Nat}
    (hat : r.HeldAt (x.after h s m).run) (hheld : (x.after h s m).run.stage = .held)
    (hworld : (x.after h s m).world = v) : ∃ n, (x.after h s n).run.isOver := by
  induction hlifts generalizing m with
  | off hoff =>
    have hsteps : Watch.Steps h h₀ s r (x.after h s m) (x.after h s (m + 1)) :=
      poll_steps hh hh₀ hnever hgoing hat
    rcases hsteps.of_held hgoing hheld with ⟨hon, -, -⟩ | ⟨hgoing', hless⟩
    · rw [hworld, hoff] at hon
      cases hon
    · exact hends (m + 1) hgoing' hless
  | on hlater ih =>
    have hsteps : Watch.Steps h h₀ s r (x.after h s m) (x.after h s (m + 1)) :=
      poll_steps hh hh₀ hnever hgoing hat
    rcases hsteps.of_held hgoing hheld with ⟨-, hrun, hwaited⟩ | ⟨hgoing', hless⟩
    · rw [← hrun] at hat hheld
      exact ih hat hheld (by rw [hwaited, hworld])
    · exact hends (m + 1) hgoing' hless

theorem polls_end {x : Watch σ}
    (hlifts : ∀ m, (x.after h s m).run.stage = .held → h.Lifts (x.after h s m).world) {m : Nat}
    {r : Run} (hgoing : r.Going) (hat : r.HeldAt (x.after h s m).run) :
    ∃ n, (x.after h s n).run.isOver := by
  induction hbound : r.bound using Nat.strongRecOn generalizing r m with
  | ind bound ih =>
    subst hbound
    have hends : ∀ m, (x.after h s m).run.Going → (x.after h s m).run.bound < r.bound →
        ∃ n, (x.after h s n).run.isOver := by
      intro m hgoing' hless
      exact ih _ hless hgoing' .same rfl
    have hheld_ends : ∀ {m}, r.HeldAt (x.after h s m).run →
        (x.after h s m).run.stage = .held → ∃ n, (x.after h s n).run.isOver := by
      intro m hat hheld
      exact held_ends hh hh₀ hnever hgoing hends (hlifts m hheld) hat hheld rfl
    have hsteps : Watch.Steps h h₀ s r (x.after h s m) (x.after h s (m + 1)) :=
      poll_steps hh hh₀ hnever hgoing hat
    generalize hy : x.after h s (m + 1) = y at hsteps
    cases hsteps with
    | idle hover => exact ⟨m, hover⟩
    | hold hready hjobs =>
      exact hheld_ends (m := m + 1) (by rw [hy]; exact .held hready hjobs) (by rw [hy])
    | wait hheld => exact hheld_ends hat hheld
    | advance _ _ _ hadvances =>
      exact hends (m + 1) (by rw [hy]; exact hadvances.going) (by rw [hy]; exact hadvances.less)

end

/-- A refresh that is never paused comes to its end. -/
theorem drain_ends {τ : Type} {h₀ : Host τ} {files : Files}
    {provider : List Text → Except ProviderError (List Embedding)}
    (hh₀ : h₀.Undisturbed files provider) (hnever : ∀ w, (h₀.isPaused.run w).1 = false)
    (plan : Plan) (s : Settings) (st : Store) (w₀ : τ) : ∃ items r st',
      (((Run.ofPlan plan).drain h₀ s st).run w₀).1 = (items, .ended, r, st') := by
  obtain ⟨x, hsights, hrun, rfl⟩ : ∃ x : Watch τ, x.sights = [] ∧ x.run = .ofPlan plan ∧
    x.store = st := ⟨⟨w₀, [], .ofPlan plan, st⟩, rfl, rfl, rfl⟩
  have hstart : x.Abreast h₀ s (((Run.ofPlan plan).drain h₀ s x.store).run w₀).1 :=
    start_abreast hsights hrun w₀
  have hlifts : ∀ m, (x.after h₀ s m).run.stage = .held → h₀.Lifts (x.after h₀ s m).world :=
    fun _ _ => .off (hnever _)
  have ⟨r, _, _, hgoing, hat, _, _⟩ := hstart
  obtain ⟨n, hover⟩ := polls_end hh₀ hh₀ hnever hlifts hgoing (m := 0) hat
  exact ⟨_, _, _, (after_abreast hh₀ hh₀ hnever hstart n).over hover⟩

/-- An item that stands in a trace was there before, or was seen by the last poll. -/
theorem sight_cases {sights seen front back : List Sight} {sight : Sight}
    (hsplit : sights ++ seen = front ++ sight :: back) :
    (∃ back', sights = front ++ sight :: back' ∧ back = back' ++ seen) ∨
      ∃ front', front = sights ++ front' ∧ seen = front' ++ sight :: back := by
  rcases List.append_eq_append_iff.mp hsplit with ⟨front', hfront, hseen⟩ | ⟨rest, hsights, hback⟩
  · exact Or.inr ⟨front', hfront, hseen⟩
  · cases rest with
    | nil => exact Or.inr ⟨[], by simpa using hsights.symm, hback.symm⟩
    | cons first back' =>
      rw [List.cons_append, List.cons.injEq] at hback
      obtain ⟨rfl, hback⟩ := hback
      exact Or.inl ⟨back', hsights, hback⟩

/-- The switch was found on again and again, and then off before anything else was seen. -/
def Released (back : List Sight) : Prop :=
  ∃ k rest, back = List.replicate k (.pause true) ++ .pause false :: rest

theorem Released.append {back : List Sight} (hback : Released back) (seen : List Sight) :
    Released (back ++ seen) := by
  obtain ⟨k, rest, rfl⟩ := hback
  exact ⟨k, rest ++ seen, by simp⟩

/-- Since it yielded an item, a refresh found the switch on whenever it was polled, and did nothing
else. -/
structure Watch.Waits (h : Host σ) (s : Settings) (x : Watch σ) (front : List Sight)
    (item : Progress) (back : List Sight) (m k : Nat) : Prop where
  held : (x.after h s (m + k)).run.stage = .held
  sights : (x.after h s m).sights = front ++ [.item item]
  back : back = List.replicate k (.pause true)
  run : (x.after h s (m + k)).run = (x.after h s m).run
  store : (x.after h s (m + k)).store = (x.after h s m).store

/-- The refresh was polled once more and found the switch on. -/
theorem Watch.Waits.wait {h : Host σ} {s : Settings} {x : Watch σ} {front back : List Sight}
    {item : Progress} {m k : Nat} (hwaits : x.Waits h s front item back m k)
    (hrun : (x.after h s (m + k + 1)).run = (x.after h s (m + k)).run)
    (hstore : (x.after h s (m + k + 1)).store = (x.after h s (m + k)).store) :
    x.Waits h s front item (back ++ [.pause true]) m (k + 1) where
  held := by rw [← Nat.add_assoc, hrun, hwaits.held]
  sights := hwaits.sights
  back := by rw [hwaits.back, List.replicate_succ']
  run := hrun.trans hwaits.run
  store := hstore.trans hwaits.store

section
variable {σ τ : Type} {h : Host σ} {h₀ : Host τ} {files : Files} {s : Settings}
  {provider : List Text → Except ProviderError (List Embedding)}
  (hh : h.Undisturbed files provider) (hh₀ : h₀.Undisturbed files provider)
  (hnever : ∀ w, (h₀.isPaused.run w).1 = false)
include hh hh₀ hnever

theorem after_pause {x : Watch σ} {whole : List Progress × Run.Ending × Run × Store}
    (hnone : x.sights = []) (hx : x.Abreast h₀ s whole) (n : Nat) {front back : List Sight}
    {item : Progress} (hsplit : (x.after h s n).sights = front ++ .item item :: back)
    (hpaused : item.status = .paused) :
    Released back ∨ ∃ m k, n = m + k ∧ x.Waits h s front item back m k := by
  induction n generalizing back with
  | zero =>
    rw [Watch.after, hnone] at hsplit
    simp at hsplit
  | succ n ih =>
    obtain ⟨r, most, w₀, hgoing, hat, -, -⟩ := after_abreast hh hh₀ hnever hx n
    have hsteps : Watch.Steps h h₀ s r (x.after h s n) (x.after h s (n + 1)) :=
      poll_steps hh hh₀ hnever hgoing hat
    have hwas : ∀ {back'}, (x.after h s n).sights = front ++ .item item :: back' →
        Released back' ∨ (x.after h s n).run.stage = .held ∧
          ∃ m k, n = m + k ∧ x.Waits h s front item back' m k := by
      intro back' hsplit'
      refine (ih hsplit').imp_right ?_
      rintro ⟨m, k, rfl, hwaits⟩
      exact ⟨hwaits.held, m, k, rfl, hwaits⟩
    generalize hy : x.after h s (n + 1) = y at hsteps hsplit
    cases hsteps with
    | idle hover =>
      rcases hwas hsplit with hreleased | ⟨hheld, -⟩
      · exact Or.inl hreleased
      · simp [Run.isOver, hheld] at hover
    | hold hready hjobs hsame =>
      rw [List.append_assoc] at hsplit
      rcases sight_cases hsplit with ⟨back', hold, rfl⟩ | ⟨front', rfl, hseen⟩
      · rcases hwas hold with hreleased | ⟨hheld, -⟩
        · exact Or.inl (hreleased.append _)
        · exact absurd (hsame ▸ hheld) hgoing.1
      · -- The item has just been yielded.
        right
        rcases front' with _ | ⟨_, _ | ⟨_, front'⟩⟩ <;> simp at hseen
        obtain ⟨rfl, rfl, rfl⟩ := hseen
        refine ⟨n + 1, 0, rfl, ?_, ?_, rfl, rfl, rfl⟩
        · rw [Nat.add_zero, hy]
        · rw [hy, List.append_assoc]
    | wait hheld hon =>
      rcases sight_cases hsplit with ⟨back', hold, rfl⟩ | ⟨front', -, hseen⟩
      · rcases hwas hold with hreleased | ⟨-, m, k, hn, hwaits⟩
        · exact Or.inl (hreleased.append _)
        · right
          subst hn
          exact ⟨m, k + 1, rfl, hwaits.wait (by rw [hy]) (by rw [hy])⟩
      · rcases front' with _ | ⟨_, front'⟩ <;> simp at hseen
    | advance hseen hgate _ hadvances =>
      rw [List.append_assoc] at hsplit
      rcases sight_cases hsplit with ⟨back', hold, rfl⟩ | ⟨front', -, hnew⟩
      · left
        rcases hwas hold with hreleased | ⟨hheld, m, k, -, hwaits⟩
        · exact hreleased.append _
        · obtain ⟨seen, rfl⟩ := List.head?_eq_some_iff.mp (hgate hheld)
          exact ⟨k, _, by rw [hwaits.back, List.cons_append]⟩
      · -- No item of such a poll reports a pause.
        have hmem : Sight.item item ∈ _ := hnew ▸ List.mem_append_right front' List.mem_cons_self
        rcases List.mem_append.mp hmem with hmem | hmem
        · cases hseen _ hmem
        · cases List.mem_singleton.mp hmem
          exact absurd hpaused hadvances.unpaused

/-- Pausing is transparent. Whatever the pause switch answers, the items of a refresh without those
that report a pause are, at any moment, the first ones of the refresh that is never paused; at its
end they are all of them, and the store is the same. It comes to its end if every pause is lifted.
After an item that reports a pause, either the switch was found on for some time and then off before
anything else was seen, or the refresh still waits, and nothing has changed since. -/
theorem pauses_transparent {x : Watch σ} {plan : Plan} (hsights : x.sights = [])
    (hrun : x.run = .ofPlan plan) (w₀ : τ) : ∃ items r st',
      (((Run.ofPlan plan).drain h₀ s x.store).run w₀).1 = (items, .ended, r, st') ∧
      ((∀ n, (x.after h s n).run.stage = .held → h.Lifts (x.after h s n).world) →
        ∃ n, (x.after h s n).run.isOver) ∧
      ∀ n, (x.after h s n).unpaused <+: items ∧
        ((x.after h s n).run.isOver →
          (x.after h s n).unpaused = items ∧ (x.after h s n).store = st') ∧
        ∀ front item back, (x.after h s n).sights = front ++ .item item :: back →
          item.status = .paused →
            Released back ∨ ∃ m k, n = m + k ∧ x.Waits h s front item back m k := by
  obtain ⟨items, r, st', hdrain⟩ := drain_ends hh₀ hnever plan s x.store w₀
  have hstart : x.Abreast h₀ s (items, .ended, r, st') := hdrain ▸ start_abreast hsights hrun w₀
  refine ⟨items, r, st', hdrain, ?_, ?_⟩
  · intro hlifts
    obtain ⟨r₀, -, -, hgoing, hat, -, -⟩ := hstart
    exact polls_end hh hh₀ hnever hlifts hgoing (m := 0) hat
  · intro n
    have habreast := after_abreast hh hh₀ hnever hstart n
    refine ⟨?_, ?_, ?_⟩
    · obtain ⟨r₀, most, w₁, -, -, -, hwhole⟩ := habreast
      exact ⟨_, (congrArg Prod.fst hwhole).symm⟩
    · intro hover
      have hwhole := habreast.over hover
      rw [Prod.mk.injEq, Prod.mk.injEq, Prod.mk.injEq] at hwhole
      exact ⟨hwhole.1.symm, hwhole.2.2.2.symm⟩
    · intro front item back hsplit hpaused
      exact after_pause hh hh₀ hnever hsights hstart n hsplit hpaused

end

/-- A pause switch, and the calls that will set it before each question of a refresh. After the last
of them it is off. -/
structure Schedule where
  switch : PauseSwitch
  calls : List (List Bool)
  lifted : (calls.flatten.foldl PauseSwitch.set switch).paused = false

namespace Schedule

/-- The calls before the next question are made. -/
def tick (w : Schedule) : Schedule where
  switch := (w.calls.headD []).foldl PauseSwitch.set w.switch
  calls := w.calls.tail
  lifted := by
    have hlifted := w.lifted
    cases hcalls : w.calls with
    | nil =>
      rw [hcalls] at hlifted
      exact hlifted
    | cons first rest =>
      rw [hcalls, List.flatten_cons, List.foldl_append] at hlifted
      exact hlifted

def answer (a : Schedule → α) : StateM Schedule α := fun w => (a w.tick, w.tick)

end Schedule

/-- The host of a workspace at rest whose pause switch is set on a schedule. -/
def Files.scheduled (files : Files)
    (provider : List Text → Except ProviderError (List Embedding)) : Host Schedule where
  dirs := Schedule.answer fun _ => []
  branch dir := Schedule.answer fun _ => files.branch dir
  list dir := Schedule.answer fun _ => files.list dir
  read p := Schedule.answer fun _ => files.read p
  embed batch := Schedule.answer fun _ => some (provider batch)
  isCancelled := Schedule.answer fun _ => false
  isPaused := Schedule.answer fun w => w.switch.paused

section
variable (files : Files) (provider : List Text → Except ProviderError (List Embedding))

theorem host_undisturbed : (files.host provider).Undisturbed files provider :=
  ⟨files.host_shows provider, fun _ _ => rfl, fun _ => rfl⟩

theorem scheduled_undisturbed : (files.scheduled provider).Undisturbed files provider :=
  ⟨⟨fun _ _ => rfl, fun _ _ => rfl, fun _ _ => rfl⟩, fun _ _ => rfl, fun _ => rfl⟩

/-- On a schedule every pause is lifted. -/
theorem schedule_lifts (w : Schedule) : (files.scheduled provider).Lifts w := by
  induction hlength : w.calls.length using Nat.strongRecOn generalizing w with
  | ind n ih =>
    subst hlength
    cases hcalls : w.calls with
    | nil =>
      have hlifted := w.lifted
      have hsame : w.tick.tick.switch = w.switch := by simp [Schedule.tick, hcalls]
      rw [hcalls] at hlifted
      refine .off ?_
      calc (files.scheduled provider).holds w = w.tick.tick.switch.paused := rfl
        _ = w.switch.paused := by rw [hsame]
        _ = false := hlifted
    | cons first rest =>
      have hless : w.tick.tick.calls.length < (first :: rest).length := by
        simp only [Schedule.tick, hcalls, List.tail_cons, List.length_tail, List.length_cons]
        omega
      exact .on (ih _ (hcalls ▸ hless) _ rfl)

end

/-- A refresh of two files that is paused before each of them. The first pause is lifted and renewed
before the refresh looks, and the switch is set again as soon as the first file is read. -/
def pausedTwice : Watch Schedule where
  world := ⟨.start false, [[true], [], [false, true], [], [], [false], [true]] ++
    List.replicate 9 [] ++ [[false]], rfl⟩
  sights := []
  run := .ofPlan Run.samplePlan
  store := .empty

/-- It reports both pauses, and apart from that it is the refresh that is never paused. -/
theorem pauses_transparent_twice : ∃ n items r st',
    (((Run.ofPlan Run.samplePlan).drain (Files.single.host (answering fun _ => [.one])) .standard
      .empty).run ()).1 = (items, .ended, r, st') ∧
    (pausedTwice.after (Files.single.scheduled (answering fun _ => [.one])) .standard n).unpaused =
      items ∧
    (pausedTwice.after (Files.single.scheduled (answering fun _ => [.one])) .standard n).store =
      st' ∧
    ∃ m, ((pausedTwice.after (Files.single.scheduled (answering fun _ => [.one])) .standard
      m).sights.filterMap Sight.item?).countP (·.status = .paused) = 2 := by
  obtain ⟨items, r, st', hdrain, hends, hafter⟩ :=
    pauses_transparent (s := .standard) (x := pausedTwice)
      (scheduled_undisturbed Files.single (answering fun _ => [.one]))
      (host_undisturbed Files.single (answering fun _ => [.one])) (fun _ => rfl) rfl rfl ()
  obtain ⟨n, hover⟩ := hends fun _ _ => schedule_lifts _ _ _
  obtain ⟨-, hover', -⟩ := hafter n
  obtain ⟨hitems, hstore⟩ := hover' hover
  exact ⟨n, items, r, st', hdrain, hitems, hstore, 12, by decide +kernel⟩

end CodeIndex
