import OnceInit.Proofs.History

/-! How a history is cut into stretches. A stretch has the calls and the notes since the answer before, so that a
history may be cut wherever nothing has happened since the last answer. -/

namespace OnceInit

def Mark.isWait : Mark → Bool
  | slept | refused .wait _ => true
  | _ => false

def Note.isWaiting : Note → Bool
  | waiting _ => true
  | _ => false

/-- There are as many notes of waiting in the stretch as calls of wait. -/
def Stretch.Even (x : Stretch) : Prop := x.log.countP Note.isWaiting = x.calls.countP Mark.isWait

namespace Event

def pending (p : List Mark × List Note) : Event → List Mark × List Note
  | call _ x => (p.1 ++ [x], p.2)
  | Event.log _ n => (p.1, p.2 ++ [n])
  | answer .. => ([], [])
  | _ => p

def Answered (h : List Event) : Prop := h.foldl pending ([], []) = ([], [])

def callsWait : Event → Bool
  | call _ x => x.isWait
  | _ => false

def notesWaiting : Event → Bool
  | Event.log _ n => n.isWaiting
  | _ => false

def Even (past : List Event) : Event → Prop
  | answer .. => past.countP notesWaiting = past.countP callsWait
  | _ => True

variable {a b es : List Event} {t : ThreadId} {x : Answer}

theorem stretchesFrom_append (calls : List Mark) (log : List Note) (a b : List Event) :
    stretchesFrom calls log (a ++ b) = stretchesFrom calls log a ++
      stretchesFrom (a.foldl pending (calls, log)).1 (a.foldl pending (calls, log)).2 b := by
  induction a generalizing calls log with
  | nil => rfl
  | cons e a ih => cases e <;> simp [stretchesFrom, pending, ih]

theorem stretches_append (ha : Answered a) (b : List Event) : stretches (a ++ b) = stretches a ++ stretches b := by
  rw [stretches, stretchesFrom_append, show a.foldl pending ([], []) = _ from ha]
  rfl

theorem answered_nil : Answered [] := rfl

theorem answered_concat (a : List Event) (t : ThreadId) (x : Answer) : Answered (a ++ [.answer t x]) := by
  rw [Answered, List.foldl_append]
  rfl

theorem Answered.append (ha : Answered a) (hb : Answered b) : Answered (a ++ b) := by
  rw [Answered, List.foldl_append, show a.foldl pending ([], []) = _ from ha]
  exact hb

theorem stretches_flatMap {α : Type} {f : α → List Event} (hf : ∀ x, Answered (f x)) (xs : List α) :
    stretches (xs.flatMap f) = xs.flatMap fun x => stretches (f x) := by
  induction xs with
  | nil => rfl
  | cons x xs ih => rw [List.flatMap_cons, stretches_append (hf x), ih, List.flatMap_cons]

def Silent (e : Event) : Prop := ∀ p, pending p e = p

theorem Silent.counts {e : Event} (hs : e.Silent) : e.notesWaiting = false ∧ e.callsWait = false := by
  cases e with
  | call t x => cases hs ([], [])
  | log t n => cases hs ([], [])
  | began | ended | read | write | opened | closed | answer | skip => exact ⟨rfl, rfl⟩

theorem Silent.even {e : Event} (hs : e.Silent) (past : List Event) : Even past e := by
  cases e with
  | answer t x => cases hs ([.locked], [])
  | began | ended | call | read | write | opened | closed | log | skip => trivial

theorem even_stretches {h : List Event} (hq : Each Even h) : (∀ s, .stretch s ∈ stretches h → s.Even) ∧
    (h.foldl pending ([], [])).2.countP Note.isWaiting + h.countP callsWait =
      (h.foldl pending ([], [])).1.countP Mark.isWait + h.countP notesWaiting := by
  induction h using List.reverseRecOn with
  | nil => exact ⟨nofun, rfl⟩
  | append_singleton h e ih =>
    obtain ⟨hq, he⟩ := each_concat.mp hq
    obtain ⟨hs, hp⟩ := ih hq
    rw [stretches] at hs ⊢
    simp only [stretchesFrom_append, List.mem_append, List.foldl_append, List.countP_append, List.foldl_cons,
      List.foldl_nil]
    generalize h.foldl pending ([], []) = p at hp ⊢
    cases e with
    | answer t x =>
      have hx : h.countP notesWaiting = h.countP callsWait := he
      refine ⟨fun s hm => hm.elim (hs s) fun hm => ?_, ?_⟩
      · cases List.mem_singleton.mp hm
        change p.2.countP _ = p.1.countP _
        omega
      · change 0 + (h.countP callsWait + 0) = 0 + (h.countP notesWaiting + 0)
        omega
    | call t x =>
      have hx : [Event.call t x].countP callsWait = [x].countP Mark.isWait := rfl
      refine ⟨fun s hm => hm.elim (hs s) nofun, ?_⟩
      change p.2.countP _ + (_ + _) = (p.1 ++ [x]).countP _ + (_ + 0)
      rw [List.countP_append, hx]
      omega
    | log t n =>
      have hn : [Event.log t n].countP notesWaiting = [n].countP Note.isWaiting := rfl
      refine ⟨fun s hm => hm.elim (hs s) nofun, ?_⟩
      change (p.2 ++ [n]).countP _ + (_ + 0) = p.1.countP _ + (_ + _)
      rw [List.countP_append, hn]
      omega
    | skip x => exact ⟨fun s hm => hm.elim (hs s) fun hm => (by simp [stretchesFrom] at hm), hp⟩
    | began | ended | read | write | opened | closed => exact ⟨fun s hm => hm.elim (hs s) nofun, hp⟩

end Event
end OnceInit
