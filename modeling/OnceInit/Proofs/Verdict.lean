import OnceInit.Proofs.Course

/-! A failure reports exactly what failed, wherever in the course of an operation it strikes: which operation it was,
which of its calls was refused and with which code. Only an acquire that has met its thread's own claim blames nobody,
even if it is refused to let go of the mutex then. And a refusal is the last that an operation gets to see. -/

namespace OnceInit

/-- The failure says that `x` was refused with `code`. -/
def Failure.Blames (f : Failure) (x : Call) (code : Int) : Prop :=
  match x with
  | .lock => f.kind = .lockFailed ∧ f.cause = some ⟨"pthread_mutex_lock", some code⟩
  | .unlock => f.kind = .unlockFailed ∧ f.cause = some ⟨"pthread_mutex_unlock", some code⟩
  | .wait => f.kind = .waitFailed ∧ f.cause = some ⟨"pthread_cond_wait", some code⟩
  | .broadcast => f.kind = .broadcastFailed ∧ f.cause = some ⟨"pthread_cond_broadcast", some code⟩

theorem Failure.blames_ofCall (op : Op) (x : Call) (code : Int) : (ofCall op x code).Blames x code := by
  cases x <;> exact ⟨rfl, rfl⟩

/-- What an operation of `t` on `g` comes back with, when `h` has happened since it began. -/
structure Verdict (t : ThreadId) (op : Op) (g : GuardId) (c : Scheme) (me : Token) (h : List Event) (r : Outcome) :
    Prop where
  fails_iff : (∃ f, r = .fails f) ↔
    (∃ x code, .call t (.refused x code) ∈ h) ∨ op = .acquire ∧ ∃ d, .read t g d ∈ h ∧ c.Catches me d
  operation : ∀ f, r = .fails f → f.op = op
  deadlock : ∀ f d, r = .fails f → op = .acquire → .read t g d ∈ h → c.Catches me d →
    f.kind = .deadlock ∧ f.cause = none
  blames : ∀ f, r = .fails f → (op = .acquire → ∀ d, .read t g d ∈ h → ¬ c.Catches me d) →
    ∃ x code, .call t (.refused x code) ∈ h ∧ f.Blames x code
  last : ∀ a b x code, h = a ++ .call t (.refused x code) :: b →
    (∀ y, .call t y ∉ b) ∧ ∀ o d v, .write t o d v ∉ b

namespace Task

variable {k : Task} {c : Call} {n : Next} {r : Int → Next}

theorem refusal_cases (hn : k.node = .call c n r) :
    k.point = .yielding ∧ (∀ code, r code = .finish (.fails (.deadlock k.op))) ∨
      k.point ≠ .yielding ∧ ∀ code, r code = .finish (.fails (.ofCall k.op c code)) := by
  unfold node at hn
  cases hp : k.point with
  | yielding =>
    simp only [hp, Node.call.injEq] at hn
    obtain ⟨-, -, rfl⟩ := hn
    exact .inl ⟨rfl, fun _ => rfl⟩
  | locking | waiting | leaving | announcing =>
    simp only [hp, Node.call.injEq] at hn
    obtain ⟨rfl, -, rfl⟩ := hn
    exact .inr ⟨nofun, fun _ => rfl⟩
  | contending | reading | judging | claiming | storing | waking => simp [hp] at hn

end Task

inductive Task.Ends (t : ThreadId) (k : Task) : List Event → Outcome → Prop
  | refused {x : Call} {code : Int} (point : k.point ≠ .yielding) :
      Ends t k [.call t (.refused x code)] (.fails (.ofCall k.op x code))
  | caught {y : Mark} (point : k.point = .yielding) : Ends t k [.call t y] (.fails (.deadlock k.op))
  | gives {y : Mark} {v : Value} (point : k.point ≠ .yielding) (accepted : ∀ x code, y ≠ .refused x code) :
      Ends t k [.call t y] (.gives v)

section Ends

variable {t : ThreadId} {k : Task} {me : Token} {h es ns : List Event} {r : Outcome}

theorem Task.Ends.single (he : k.Ends t es r) : ∃ y, es = [.call t y] := by
  cases he <;> exact ⟨_, rfl⟩

theorem Task.Ends.verdict (he : k.Ends t es r)
    (caught : k.point = .yielding → k.op = .acquire ∧ ∃ d, .read t k.guard d ∈ h ∧ k.scheme.Catches me d)
    (clear : k.point ≠ .yielding → k.op = .acquire → ∀ d, .read t k.guard d ∈ h → ¬ k.scheme.Catches me d)
    (unrefused : ∀ x code, .call t (.refused x code) ∉ h) (calls : ∀ y, .call t y ∉ ns)
    (reads : ∀ d, .read t k.guard d ∉ ns) (writes : ∀ o d v, .write t o d v ∉ ns) :
    Verdict t k.op k.guard k.scheme me (h ++ (es ++ ns)) r := by
  have mem_read : ∀ d, .read t k.guard d ∈ h ++ (es ++ ns) ↔ .read t k.guard d ∈ h := by
    obtain ⟨y, rfl⟩ := he.single
    simp [reads]
  have last : ∀ a b x code, h ++ (es ++ ns) = a ++ .call t (.refused x code) :: b →
      (∀ y, .call t y ∉ b) ∧ ∀ o d v, .write t o d v ∉ b := by
    intro a b x code hsplit
    obtain ⟨b₀, rfl, -⟩ | ⟨a₁, -, hsplit⟩ := split_append hsplit
    · exact absurd (by simp) (unrefused x code)
    · obtain ⟨y, rfl⟩ := he.single
      cases a₁ with
      | nil =>
        cases hsplit
        exact ⟨calls, writes⟩
      | cons e a₁ =>
        obtain rfl := (List.cons.inj hsplit).2
        exact absurd (by simp) (calls (.refused x code))
  cases he with
  | @refused x code point =>
    have mem : .call t (.refused x code) ∈ h ++ ([.call t (.refused x code)] ++ ns) := by simp
    exact {
      fails_iff := ⟨fun _ => .inl ⟨x, code, mem⟩, fun _ => ⟨_, rfl⟩⟩
      operation := by
        rintro _ ⟨⟩
        rfl
      deadlock := fun f d _ ho hd hcat => absurd hcat (clear point ho d ((mem_read d).mp hd))
      blames := by
        rintro _ ⟨⟩ _
        exact ⟨x, code, mem, Failure.blames_ofCall ..⟩
      last := last }
  | caught point =>
    obtain ⟨ho, d, hd, hcat⟩ := caught point
    exact {
      fails_iff := ⟨fun _ => .inr ⟨ho, d, (mem_read d).mpr hd, hcat⟩, fun _ => ⟨_, rfl⟩⟩
      operation := by
        rintro _ ⟨⟩
        rfl
      deadlock := by
        rintro _ _ ⟨⟩ _ _ _
        exact ⟨rfl, rfl⟩
      blames := fun f _ hn => absurd hcat (hn ho d ((mem_read d).mpr hd))
      last := last }
  | @gives y v point accepted =>
    have unfailed : ∀ f, Outcome.gives v ≠ .fails f := fun _ hf => nomatch hf
    refine ⟨iff_of_false (fun ⟨f, hf⟩ => unfailed f hf) ?_, fun f hf => absurd hf (unfailed f),
      fun f _ hf => absurd hf (unfailed f), fun f hf => absurd hf (unfailed f), last⟩
    rintro (⟨x, code, hx⟩ | ⟨ho, d, hd, hcat⟩)
    · obtain hx | hx | hx : _ ∨ _ ∨ _ := by simpa using hx
      · exact unrefused x code hx
      · exact accepted x code hx.symm
      · exact calls _ hx
    · exact clear point ho d ((mem_read d).mp hd) hcat

end Ends

namespace Machine

variable {s : Setup} {ok : OnceInit.Step → Prop} {m m₀ m₁ : Machine} {h es : List Event} {t : ThreadId}
  {k : Task} {x : Outcome} {op : Op} {g : GuardId} {c : Scheme} {p : Purpose} {r : Machine × List Event}

theorem Act.ends (ha : Act s m t k m₁ es (.finish x)) : k.Ends t es x := by
  obtain ⟨_, _, _, hnode, -⟩ := ha.called_of_finish
  generalize hx : Next.finish x = n at ha
  cases ha with
  | refused hn _ =>
    obtain ⟨hp, hr⟩ | ⟨hp, hr⟩ := Task.refusal_cases hn
    · cases hx.trans (hr _)
      exact .caught hp
    · cases hx.trans (hr _)
      exact .refused hp
  | lock hn =>
    subst hx
    cases Task.calls hn
  | unlock hn =>
    cases Task.calls hn with
    | unlock hp =>
      split at hx
      · cases hx
      · cases hx
        exact .gives (by simp [hp]) nofun
    | yield hp =>
      cases hx
      exact .caught hp
  | broadcast hn =>
    cases Task.calls hn with
    | broadcast hp =>
      cases hx
      exact .gives (by simp [hp]) nofun
  | took hn | read hn | asked hn | wrote hn => cases hnode.symm.trans hn

theorem Course.verdict (hc : m.Course t k h) (ha : Act s m t k m₁ es (.finish x)) :
    Verdict t k.op k.guard k.scheme (m.token s t)
      (h ++ (es ++ ((Next.finish x).report t k ++ (Next.finish x).notes s t k))) x := by
  have known : ∀ me, m.tokens.known t = some me → me = m.token s t := fun me hme => (token_of_known hme).symm
  have caught : k.point = .yielding →
      k.op = .acquire ∧ ∃ d, .read t k.guard d ∈ h ∧ k.scheme.Catches (m.token s t) d := by
    intro hp
    obtain ⟨ho, me, hme, d, hd, hcat⟩ := hc.sighted.catches hp
    exact ⟨ho, d, mem_readsOf.mp hd, known me hme ▸ hcat⟩
  have clear : k.point ≠ .yielding → k.op = .acquire → ∀ d, .read t k.guard d ∈ h →
      ¬ k.scheme.Catches (m.token s t) d := by
    intro hp ho d hd
    obtain ⟨_, _, _, hn, -⟩ := ha.called_of_finish
    exact (hc.sighted.clears hn hp ho d (mem_readsOf.mpr hd)).not_catches known
  exact ha.ends.verdict caught clear hc.unrefused (call_not_mem_news _ t) (read_not_mem_news _ t _)
    (write_not_mem_news _ t)

theorem unsettled_of_running (hf : m.fate = none) (hr : m.running = some t) : m.settled = false := by
  simp [settled, hf, hr]

theorem mem_turns_two {e : Event} (h₁ : m.settled = false) (h₂ : (m.turn s).1.settled = false)
    (he : e ∈ ((m.turn s).1.turn s).2) : e ∈ (m.turns s 2).2 := by
  simp only [turns, h₁, h₂, prepend, Bool.false_eq_true, ↓reduceIte]
  exact List.mem_append_right _ (List.mem_append_left _ he)

theorem Played.judging {d : Cell} (hp : Played s m t k r) (hd : .read t k.guard d ∈ r.2) (ho : k.op = .acquire)
    (hi : d.isComplete = false) : r.1 = m.advance t k (.go (.judging d)) := by
  cases hp with
  | slept | parked => cases List.mem_pair.mp hd <;> contradiction
  | @act m₁ es n ha =>
    have he : .read t k.guard d ∈ es := (List.mem_append.mp hd).resolve_right (read_not_mem_news n t _ d)
    cases ha with
    | read hn =>
      obtain rfl : d = m.cells k.guard := by simpa using he
      have hp := Task.point_of_read hn
      simp only [Task.node, hp, Node.read.injEq] at hn
      rw [← hn, Task.seen, if_neg (by simp [ho]), if_neg (by simp [hi])]
    | lock | asked => cases he
    | refused | unlock | broadcast | took | wrote => cases List.mem_singleton.mp he

theorem ended_of_yielding (hr : m.running = some t) (hk : m.tasks t = some k) (hp : k.point = .yielding) :
    .ended t k.op k.guard (.fails (.deadlock k.op)) ∈ (m.turn s).2 := by
  have hnode : k.node = .call .unlock k.deadlock fun _ => k.deadlock := by rw [Task.node, hp]
  have told := ended_mem_report t k (.fails (.deadlock k.op))
  have hplay := played_turn (s := s) hr hk
  generalize m.turn s = r at hplay ⊢
  cases hplay with
  | slept hn | parked hn => cases hnode.symm.trans hn
  | act ha =>
    cases ha with
    | refused hn | unlock hn =>
      cases hnode.symm.trans hn
      exact List.mem_append_right _ (List.mem_append_left _ told)
    | lock hn | broadcast hn | took hn | read hn | asked hn | wrote hn => cases hnode.symm.trans hn

theorem gives_up {d : Cell} (hr : m.running = some t) (hf : m.fate = none)
    (hk : m.tasks t = some { k with point := .judging d }) (hd : k.scheme.claimOf d = .takenBy (m.token s t)) :
    .ended t k.op k.guard (.fails (.deadlock k.op)) ∈ (m.turns s 2).2 := by
  have hturn : m.turn s = ((m.register s t).place t k .yielding, []) := by
    simp [turn, hr, hk, perform, Task.node, Task.judge, hd, proceed, place]
  have hrun : (m.turn s).1.running = some t := by
    rw [hturn]
    exact hr
  have hfate : (m.turn s).1.fate = none := by
    rw [hturn]
    exact hf
  have hyield : (m.turn s).1.tasks t = some { k with point := .yielding } := by
    rw [hturn]
    exact put_same ..
  exact mem_turns_two (unsettled_of_running hf hr) (unsettled_of_running hfate hrun)
    (ended_of_yielding (k := { k with point := .yielding }) hrun hyield rfl)

/-- What the next turn brings for the operation that `t` is in the middle of, since the start of which `h` has
happened. A fault that strikes refuses the call, and the operation comes back at once from a refusal; it comes back when
it has met its own claim; and whenever it comes back there is nothing else that it can say. -/
structure Reports (s : Setup) (m : Machine) (t : ThreadId) (op : Op) (g : GuardId) (c : Scheme) (h : List Event) :
    Prop where
  struck : ∀ k x n f code, m.running = some t → m.tasks t = some k → k.node = .call x n f → m.refusal x = some code →
    .call t (.refused x code) ∈ (m.turn s).2
  refused : ∀ x code, .call t (.refused x code) ∈ (m.turn s).2 →
    m.refusal x = some code ∧ ∃ f, .ended t op g (.fails f) ∈ (m.turn s).2
  caught : op = .acquire → ∀ d, .read t g d ∈ (m.turn s).2 → c.Catches (m.token s t) d →
    .ended t op g (.fails (.deadlock op)) ∈ ((m.turn s).1.turns s 2).2
  ended : ∀ o d x, .ended t o d x ∈ (m.turn s).2 →
    o = op ∧ d = g ∧ Verdict t op g c (m.token s t) (h ++ (m.turn s).2) x

theorem refused_of_struck {x : Call} {n : Next} {f : Int → Next} {code : Int} (hr : m.running = some t)
    (hk : m.tasks t = some k) (hn : k.node = .call x n f) (hc : m.refusal x = some code) :
    .call t (.refused x code) ∈ (m.turn s).2 := by
  simp [turn, hr, hk, perform, hn, invoke, hc, emit]

theorem Course.reports (hc : m.Course t k h) (hf : m.fate = none) : m.Reports s t k.op k.guard k.scheme h := by
  have struck : ∀ k x n f code, m.running = some t → m.tasks t = some k → k.node = .call x n f →
      m.refusal x = some code → .call t (.refused x code) ∈ (m.turn s).2 :=
    fun _ _ _ _ _ hr hk hn hx => refused_of_struck hr hk hn hx
  obtain ⟨u, j, hrun, hj, hp⟩ | ⟨he, -, -⟩ := turn_played s m
  · by_cases htu : t = u
    · subst htu
      cases hj.symm.trans hc.task
      refine ⟨struck, fun x code hx => ⟨(hp.refused hx).2.1, hp.fails_of_refused hx⟩, fun ho d hd hcat => ?_,
        fun o d x hx => ?_⟩
      · rw [hp.judging hd ho hcat.1]
        exact gives_up (m := m.advance t k (.go (.judging d))) rfl hf (put_same ..) hcat.2
      · obtain ⟨-, rfl, rfl, m₁, es, ha, hr⟩ := hp.ended hx
        refine ⟨rfl, rfl, ?_⟩
        rw [hr]
        exact hc.verdict ha
    · exact ⟨struck, fun _ _ hx => absurd hx (hp.foreign htu rfl), fun _ _ hd => absurd hd (hp.foreign htu rfl),
        fun _ _ _ hx => absurd hx (hp.foreign htu rfl)⟩
  · exact ⟨struck, by simp [he], by simp [he], by simp [he]⟩

/-- Whatever fails, whenever it does and whatever others do meanwhile, an operation fails exactly if one of its calls is
refused or if it meets its own claim, and says which. -/
theorem fatal_exact (hr : Reaches s ok (m₀.launch t (.start op g c p)).1 m h) (hn : ∀ e ∈ h, e.returns ≠ some t)
    (hf : m.fate = none) : m.Reports s t op g c h := by
  obtain ⟨x, hc⟩ := hr.course hn
  exact hc.reports hf

/-- A waiter is woken by an abort, claims the guard, and is refused to let go of the mutex. -/
theorem fatal_exact_woken : ∃ m₀ m h,
    Reaches (.plain .owner) (fun _ => True) (Machine.launch m₀ 1 (.start .acquire 0 .owner .plain)).1 m h ∧
    .call 1 .slept ∈ h ∧ .call 1 .woke ∈ h ∧
    Verdict 1 .acquire 0 .owner (m.token (.plain .owner) 1) (h ++ (m.turn (.plain .owner)).2)
      (.fails (.ofCall .acquire .unlock 22)) := by
  have h₀ : Reaches (.plain .owner) (fun _ => True)
      (launch (((start fun _ => .zero .wide).launch 0 (.start .acquire 0 .owner .plain)).1.turns (.plain .owner) 9).1
        1 (.start .acquire 0 .owner .plain)).1 _ [] := .start
  have h₁ := (h₀.turns 9).begin (.fault .unlock ⟨22, 1⟩) (by decide) (by decide) trivial
  have h₂ := (h₁.begin (.act 0 0 none (some .abort)) (by decide) (by decide) trivial).turns 10
  have h₃ := fatal_exact h₂ (by decide) (by decide)
  exact ⟨_, _, _, h₂, by decide, by decide, (h₃.ended .acquire 0 _ (by decide)).2.2⟩

end Machine
end OnceInit
