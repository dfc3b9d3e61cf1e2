import OnceInit.Proofs.Mutex

/-! Who touches what, and when. Cells are read and written by the owner of the mutex only, and by nobody else is the
mutex let go; to wake the others a thread does not need it. As long as no thread has been kept from letting go of the
mutex, it is free whenever a thread parks, comes back from an operation or starts an initializer. -/

namespace OnceInit

def Mark.call : Mark → Option Call
  | unlocked => some .unlock
  | slept => some .wait
  | announced => some .broadcast
  | refused c _ => some c
  | locked | blocked | woke => none

def Machine.Commands (m : Machine) (t : ThreadId) : Prop := m.running = some t ∧ m.owner = some t

/-- What it takes to do something in the state `m`. -/
def Event.Licensed (m : Machine) : Event → Prop
  | read t .. | write t .. => m.Commands t
  | call t x => ∀ c, x.call = some c →
      (c.leaves = true → m.Commands t) ∧ (c = .broadcast → m.running = some t ∧ m.owner ≠ some t)
  | _ => True

def Event.isPause : Event → Bool
  | call _ .slept | call _ .blocked | ended .. | opened .. => true
  | _ => false

namespace Machine

variable {s : Setup} {ok : OnceInit.Step → Prop} {cells : GuardId → Cell} {m m₁ : Machine} {h es : List Event}
  {t : ThreadId} {k : Task} {n : Next} {e : Event}

theorem Played.cells_cases {r : Machine × List Event} (hp : Played s m t k r) :
    r.1.cells = m.cells ∨ ∃ new n c, k.node = .write new n ∧ r.1.cells = put m.cells k.guard c := by
  cases hp with
  | slept | parked => exact .inl rfl
  | act ha =>
    cases ha with
    | refused | lock | unlock | broadcast | took | read | asked => exact .inl rfl
    | wrote hn => exact .inr ⟨_, _, _, hn, rfl⟩

section Owned

variable (hm : m.Owned) (hr : m.running = some t) (hk : m.tasks t = some k)

include hm hr hk

theorem Owned.commands (hi : k.point.inside = true) : m.Commands t := ⟨hr, hm.inside t k hr hk hi⟩

theorem Owned.licensed_call {c : Call} {r : Int → Next} (hn : k.node = .call c n r) {x : Mark}
    (hx : ∀ d, x.call = some d → d = c) : Event.Licensed m (.call t x) := by
  intro d hd
  obtain rfl := hx d hd
  refine ⟨fun hl => hm.commands hr hk ((Task.inside_of_call hn).trans hl), ?_⟩
  rintro rfl
  have hp : k.point = .announcing := by
    cases Task.calls hn
    assumption
  simp [hr, hm.announcing t k hr hk hp]

theorem Owned.licensed_act (ha : Act s m t k m₁ es n) : ∀ e ∈ es, e.Licensed m := by
  intro e he
  cases ha with
  | refused hn _ | unlock hn | broadcast hn =>
    rw [List.mem_singleton.mp he]
    exact hm.licensed_call hr hk hn fun d hd => (Option.some.inj hd).symm
  | lock | asked => cases he
  | @took w =>
    rw [List.mem_singleton.mp he]
    cases w <;> nofun
  | read hn =>
    rw [List.mem_singleton.mp he]
    exact hm.commands hr hk (Task.inside_of_read hn)
  | wrote hn =>
    rw [List.mem_singleton.mp he]
    exact hm.commands hr hk (Task.inside_of_write hn)

theorem Owned.licensed_played {r : Machine × List Event} (hp : Played s m t k r) : ∀ e ∈ r.2, e.Licensed m := by
  intro e he
  cases hp with
  | act ha =>
    rcases List.mem_append.mp he with he | he
    · exact hm.licensed_act hr hk ha e he
    · obtain ⟨_, _, rfl⟩ | ⟨_, rfl⟩ | ⟨_, rfl⟩ | ⟨_, rfl⟩ := news_cases he <;> trivial
  | slept hn =>
    rcases List.mem_cons.mp he with rfl | he
    · exact hm.licensed_call hr hk hn fun d hd => (Option.some.inj hd).symm
    · rw [List.mem_singleton.mp he]
      trivial
  | parked =>
    rcases List.mem_cons.mp he with rfl | he
    · nofun
    · rw [List.mem_singleton.mp he]
      trivial

theorem Owned.cells_played {r : Machine × List Event} (hp : Played s m t k r) :
    r.1.cells = m.cells ∨ m.Commands t := by
  rcases hp.cells_cases with hc | ⟨new, n, c, hn, -⟩
  · exact .inl hc
  · exact .inr (hm.commands hr hk (Task.inside_of_write hn))

end Owned

theorem Act.not_pause (ha : Act s m t k m₁ es n) : ∀ e ∈ es, e.isPause = false := by
  cases ha with
  | lock | asked => simp
  | @took w => cases w <;> simp [Event.isPause]
  | refused | unlock | broadcast | read | wrote => simp [Event.isPause]

theorem Played.idle_of_pause {r : Machine × List Event} (hp : Played s m t k r) (he : e ∈ r.2)
    (hq : e.isPause = true) : r.1.running = none := by
  cases hp with
  | slept | parked => rfl
  | @act m₁ es n ha =>
    rcases List.mem_append.mp he with he | he
    · rw [ha.not_pause e he] at hq
      cases hq
    · obtain ⟨r, rfl, -⟩ | ⟨g, rfl⟩ | ⟨x, rfl⟩ | ⟨a, rfl⟩ := news_cases he
      · rfl
      · rcases List.mem_append.mp he with he | he
        · cases n with
          | go | tell => cases he
          | finish => rfl
        · cases isNote_notes s t k n _ he
      · cases hq
      · cases hq

/-- Whatever fails, whoever wakes, and whether or not the callers keep to a contract, at every moment of a run. -/
theorem lock_discipline (hr : Reaches s ok (.start cells) m h) (hu : m.settled = false) :
    (∀ e ∈ (m.turn s).2, e.Licensed m) ∧
    ((m.turn s).1.cells ≠ m.cells → ∃ t, m.Commands t) ∧
    (LetsGo (h ++ (m.turn s).2) → ∀ e ∈ (m.turn s).2, e.isPause = true → (m.turn s).1.owner = none) := by
  have calm := fun hl => (hr.turn hu).calm_of_letsGo hl
  obtain ⟨-, ⟨t, k, hrun, hk, hp⟩ | ⟨t, rest, -, -, ht⟩⟩ := hr.seated.turn_cases (s := s) hu
  · refine ⟨hr.owned.licensed_played hrun hk hp, fun hc => ?_, fun hl e he hq => ?_⟩
    · exact ⟨t, (hr.owned.cells_played hrun hk hp).resolve_left hc⟩
    · exact (calm hl).free (hp.idle_of_pause he hq)
  · simp [ht]

/-- A thread wakes for no reason in a process that has been refused a lock and a broadcast and whose cell has been
overwritten, and goes back to sleep. -/
theorem lock_discipline_woken : ∃ m h,
    Reaches (.plain .owner) (fun _ => True) (.start fun _ => .zero .wide) m h ∧ m.settled = false ∧
    .call 0 (.refused .lock 35) ∈ h ∧ .call 0 (.refused .broadcast 5) ∈ h ∧
    .call 1 .slept ∈ (m.turn (.plain .owner)).2 ∧ m.owner = some 1 ∧ (m.turn (.plain .owner)).1.owner = none := by
  have hr : Reaches (.plain .owner) (fun _ => True) (.start fun _ => .zero .wide) _ [] := .start
  have h₁ := (hr.begin (.act 0 0 none (some .acquire)) (by decide) (by decide) trivial).turns 9
  have h₂ := (h₁.begin (.act 1 0 none (some .acquire)) (by decide) (by decide) trivial).turns 9
  have h₃ := h₂.begin (.fault .lock ⟨35, 0⟩) (by decide) (by decide) trivial
  have h₄ := (h₃.begin (.act 0 0 none (some .release)) (by decide) (by decide) trivial).turns 9
  have h₅ := h₄.begin (.fault .broadcast ⟨5, 0⟩) (by decide) (by decide) trivial
  have h₆ := (h₅.begin (.act 0 0 none (some .release)) (by decide) (by decide) trivial).turns 9
  have h₇ := h₆.begin (.poke 0 (.wide 0 0 0 0 9 0 0 0)) (by decide) (by decide) trivial
  have h₈ := (h₇.begin (.spurious 1) (by decide) (by decide) trivial).turns 3
  obtain ⟨hl, -, hf⟩ := lock_discipline h₈ (by decide)
  exact ⟨_, _, h₈, by decide, by decide, by decide, by decide,
    ((hl (.call 1 .slept) (by decide) .wait rfl).1 rfl).2, hf (by decide) (.call 1 .slept) (by decide) rfl⟩

end Machine
end OnceInit
