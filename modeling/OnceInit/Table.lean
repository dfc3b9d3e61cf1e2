/-! Tables: total functions on indices, changed at one index at a time. Threads and guards are numbered. -/

namespace OnceInit

abbrev ThreadId := Nat
abbrev GuardId := Nat

variable {ι α : Type} [DecidableEq ι]

def put (f : ι → α) (i : ι) (a : α) : ι → α := fun j => if j = i then a else f j

@[simp] theorem put_same (f : ι → α) (i : ι) (a : α) : put f i a i = a := by
  simp [put]

theorem put_of_ne (f : ι → α) {i j : ι} (a : α) (h : j ≠ i) : put f i a j = f j := by
  simp [put, h]

@[simp] theorem put_eq_self (f : ι → α) (i : ι) : put f i (f i) = f := by
  funext j
  by_cases h : j = i
  · subst h
    exact put_same f j _
  · exact put_of_ne f _ h

@[simp] theorem put_put (f : ι → α) (i : ι) (a b : α) : put (put f i a) i b = put f i b := by
  funext j
  by_cases h : j = i
  · subst h
    simp only [put_same]
  · simp only [put_of_ne _ _ h]

end OnceInit
