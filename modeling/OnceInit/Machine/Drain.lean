import OnceInit.Machine.Effort

/-! Turns are taken until nothing is left to run. -/

namespace OnceInit.Machine

def prepend (es : List Event) (r : Machine × List Event) : Machine × List Event := (r.1, es ++ r.2)

def drain (s : Setup) (m : Machine) : Machine × List Event :=
  if m.settled then (m, [])
  else
    let r := m.turn s
    prepend r.2 (drain s r.1)
termination_by (m.announcers, m.effort)
decreasing_by
  rename_i h
  rcases turn_below (s := s) (Bool.eq_false_iff.mpr h) with hlt | ⟨hle, hlt⟩
  · exact Prod.Lex.left _ _ hlt
  · exact Prod.Lex.right' _ hle hlt

variable {s : Setup} {m : Machine}

theorem drain_of_settled (h : m.settled = true) : m.drain s = (m, []) := by
  rw [drain, if_pos h]

theorem drain_of_not_settled (h : m.settled = false) :
    m.drain s = prepend (m.turn s).2 ((m.turn s).1.drain s) := by
  rw [drain, if_neg (by simp [h])]

theorem settled_drain (s : Setup) (m : Machine) : (m.drain s).1.settled = true := by
  fun_induction drain s m with
  | case1 m h => exact h
  | case2 m h r ih => exact ih

end OnceInit.Machine
