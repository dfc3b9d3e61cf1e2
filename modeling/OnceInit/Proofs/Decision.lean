import OnceInit.Proofs.Bout

/-! What an acquire decides once it has the mutex. The phase of its cell decides it, whatever else the cell holds and
whatever state the process is in; and a thread that has been woken decides as one that has just come. -/

namespace OnceInit.Machine

/-- How the acquire `k` of `t`, whose token is `me`, goes on from getting the mutex up to its next call, if that call is
not refused. `woken` says whether it gets the mutex inside of wait or of lock. -/
structure Decides (s : Setup) (m : Machine) (t : ThreadId) (k : Task) (me : Token) (woken : Bool) : Prop where
  complete : k.scheme.phaseOf (m.cells k.guard) = .complete → m.refusal .unlock = none →
    Leads s m
      [.call t (if woken then .woke else .locked), .read t k.guard (m.cells k.guard), .call t .unlocked,
        .ended t .acquire k.guard (.gives (.granted false)), .answer t (k.purpose.answer (.granted false))]
      ((m.letGo .unlock).done t)
  untouched : k.scheme.phaseOf (m.cells k.guard) = .untouched → m.refusal .unlock = none →
    Leads s m
      (.call t (if woken then .woke else .locked) :: .read t k.guard (m.cells k.guard) ::
        .write t .acquire k.guard (k.scheme.claimed (m.cells k.guard).width me) ::
        (s.log t (.granted k.guard k.scheme) ++ .call t .unlocked ::
          .ended t .acquire k.guard (.gives (.granted true)) ::
          (k.opens (.granted true)).map (fun f => .opened t f.guard) ++
          [.answer t (k.purpose.answer (.granted true))]))
      (((((m.register s t).poke k.guard (k.scheme.claimed (m.cells k.guard).width me)).letGo .unlock).enter t k
        (.granted true)).done t)
  own : k.scheme.phaseOf (m.cells k.guard) = .underWay (.takenBy me) → m.refusal .unlock = none →
    Leads s m
      ([.call t (if woken then .woke else .locked), .read t k.guard (m.cells k.guard), .call t .unlocked,
        .ended t .acquire k.guard (.fails (.deadlock .acquire))] ++
          Next.notes s t k (.finish (.fails (.deadlock .acquire))))
      { ((m.register s t).letGo .unlock).done t with fate := Next.doom k (.finish (.fails (.deadlock .acquire))) }
  others : ∀ c, k.scheme.phaseOf (m.cells k.guard) = .underWay c → c ≠ .takenBy me → m.refusal .wait = none →
    Leads s m
      (.call t (if woken then .woke else .locked) :: .read t k.guard (m.cells k.guard) ::
        s.log t (.waiting k.guard) ++ [.call t .slept, .answer t .waiting])
      (((m.register s t).letGo .wait).dozing t k)

variable {s : Setup} {m : Machine} {t : ThreadId} {k : Task} {w : Bool}

theorem doing_eq_self (hr : m.running = some t) (hk : m.tasks t = some k) : m.doing t k = m := by
  rw [doing, ← hr, ← hk, put_eq_self]

theorem decides_of_take (ho : k.op = .acquire) (hn : k.node = .take w k.entered) (free : m.owner = none)
    (alive : m.fate = none) (hr : m.running = some t) (hk : m.tasks t = some k) :
    m.Decides s t k (m.token s t) w := by
  have hm := doing_eq_self hr hk
  exact {
    complete := fun hc hu => by
      have hl := leads_complete (s := s) (t := t) ho hn free alive hu ((Scheme.phaseOf_eq_complete_iff ..).mp hc)
      rwa [hm] at hl
    untouched := fun hc hu => by
      have hl := leads_granted (s := s) (t := t) ho hn free alive hu hc
      rwa [hm] at hl
    own := fun hc hu => by
      have hl := leads_deadlock (s := s) (t := t) ho hn free alive hu hc
      rwa [hm] at hl
    others := fun c hc hne hw => by
      have hl := leads_dozing (s := s) (t := t) ho hn free alive hw hc hne
      rwa [hm] at hl }

theorem drain_of_take (ho : k.op = .acquire) (hn : k.node = .take w k.entered) (free : m.owner = none)
    (alive : m.fate = none) :
    (m.doing t k).drain s =
      prepend [.call t (if w then .woke else .locked)]
        (((m.taken t).doing t { k with point := .reading }).drain s) := by
  have hs : k.op.settles = false := by rw [ho]; rfl
  have hl := leads_took (s := s) (t := t) hn free alive
  rw [hs] at hl
  exact hl.drain

end OnceInit.Machine
