import OnceInit.Token.Registry
import Mathlib.Data.List.Basic

/-! The tokens of threads that are created one after the other. Tokens come from the system or from the counter, and
these do not know of each other: a thread may be given by the system the number that the counter gives to another. -/

namespace OnceInit

def outside (ids : List Int) : Bool := ids.head?.any fun g => g ≤ 0 ∨ 4294967296 ≤ g

theorem outside_cons (g : Int) (gs : List Int) : outside (g :: gs) = (Token.ofInt? g).isNone := by
  rw [Bool.eq_iff_iff, Option.isNone_iff_eq_none, Token.ofInt?_eq_none_iff]
  simp [outside]

/-- The threads up to the one at `i` that take their tokens from the counter. -/
def rank (threads : List (List Int)) (i : Nat) : Nat := (threads.take (i + 1)).countP outside

def Token.Given (k : Token) (g : Int) (n : Nat) : Prop :=
  match Token.ofInt? g with
  | some x => k = x
  | none => k.raw.toNat = n

theorem Token.eq_iff_toNat (a b : Token) : a = b ↔ a.raw.toNat = b.raw.toNat :=
  ⟨fun h => by rw [h], fun h => ext_raw (UInt32.toNat_inj.mp h)⟩

theorem rank_succ (ids : List Int) (threads : List (List Int)) (i : Nat) :
    rank (ids :: threads) (i + 1) = [ids].countP outside + rank threads i := by
  rw [rank, List.take_succ_cons, ← List.singleton_append, List.countP_append]
  rfl

theorem rank_of_outside {threads : List (List Int)} {j : Nat} {ids : List Int} (hj : threads[j]? = some ids)
    (ho : outside ids = true) : rank threads j = (threads.take j).countP outside + 1 := by
  rw [rank, List.take_add_one, hj, List.countP_append]
  simp [ho]

theorem rank_lt {threads : List (List Int)} {i j : Nat} {ids : List Int} (hj : threads[j]? = some ids)
    (ho : outside ids = true) (hij : i < j) : rank threads i < rank threads j := by
  rw [rank_of_outside hj ho, Nat.lt_succ_iff]
  exact (List.take_prefix_take_left (Nat.succ_le_of_lt hij)).sublist.countP_le

namespace Registry

variable {r : Registry} {t : ThreadId} {k : Token} {g : Int} {ids : List Int} {threads : List (List Int)} {n : Nat}

theorem askAll_of_known (hk : r.known t = some k) (ids : List Int) :
    r.askAll t ids = (List.replicate ids.length k, r) := by
  induction ids with
  | nil => rfl
  | cons g ids ih => simp only [askAll, ask_known hk, ih, List.length_cons, List.replicate_succ]

theorem askAll_cons (r : Registry) (t : ThreadId) (g : Int) (ids : List Int) :
    r.askAll t (g :: ids) = (List.replicate (ids.length + 1) (r.ask t g).1, (r.ask t g).2) := by
  rw [askAll, askAll_of_known (known_ask r t g), List.replicate_succ]

structure Serving (r : Registry) (t : ThreadId) (n : Nat) : Prop where
  next : r.next = UInt32.ofNat (n + 1)
  unknown : ∀ u, t ≤ u → r.known u = none

theorem serving_fresh : fresh.Serving 0 0 := ⟨rfl, fun _ _ => rfl⟩

theorem Serving.skip (hs : r.Serving t n) : r.Serving (t + 1) n :=
  ⟨hs.next, fun u hu => hs.unknown u (Nat.le_of_succ_le hu)⟩

theorem draw_ofNat (hn : n + 1 < 4294967296) :
    (draw (UInt32.ofNat (n + 1))).1.raw.toNat = n + 1 ∧ (draw (UInt32.ofNat (n + 1))).2 = UInt32.ofNat (n + 2) := by
  have hnext : (UInt32.ofNat (n + 1)).toNat = n + 1 := by
    rw [UInt32.toNat_ofNat']
    exact Nat.mod_eq_of_lt hn
  have hne : UInt32.ofNat (n + 1) ≠ 0 := by
    intro h
    rw [h] at hnext
    cases hnext
  rw [draw, dif_pos hne]
  exact ⟨hnext, UInt32.toNat_inj.mp (by simp)⟩

theorem Serving.ask (hs : r.Serving t n) (g : Int) (gs : List Int) (hn : n + 1 < 4294967296) :
    (r.ask t g).1.Given g (n + [g :: gs].countP outside) ∧
      (r.ask t g).2.Serving (t + 1) (n + [g :: gs].countP outside) := by
  have hk : r.known t = none := hs.unknown t (Nat.le_refl t)
  have hother : ∀ u, t + 1 ≤ u → (r.ask t g).2.known u = none := fun u hu => by
    rw [known_ask_of_ne r (Nat.ne_of_gt hu), hs.unknown u (Nat.le_of_succ_le hu)]
  unfold Token.Given
  cases hg : Token.ofInt? g with
  | some k =>
    have ho : [g :: gs].countP outside = 0 := by simp [outside_cons, hg]
    have ha := ask_of_numbered hk hg
    rw [ho]
    exact ⟨by rw [ha], by rw [ha]; exact hs.next, hother⟩
  | none =>
    have ho : [g :: gs].countP outside = 1 := by simp [outside_cons, hg]
    obtain ⟨h₁, h₂⟩ := draw_ofNat hn
    have ha := ask_of_unnumbered hk hg
    rw [hs.next] at ha
    rw [ho]
    exact ⟨by rw [ha]; exact h₁, by rw [ha]; exact h₂, hother⟩

theorem Serving.census (hs : r.Serving t n) (hn : n + threads.length < 4294967296) {i : Nat}
    (hi : threads[i]? = some ids) :
    ∃ k : Token, (r.census t threads)[i]? = some (List.replicate ids.length k) ∧
      ∀ g ∈ ids.head?, k.Given g (n + rank threads i) := by
  induction threads generalizing r t n i with
  | nil => cases hi
  | cons x xs ih =>
    rw [List.length_cons] at hn
    cases x with
    | nil =>
      cases i with
      | zero =>
        cases hi
        exact ⟨⟨1, by decide⟩, rfl, by simp⟩
      | succ i =>
        rw [rank_succ]
        simpa [Registry.census, askAll, outside] using ih hs.skip (by omega) hi
    | cons g gs =>
      obtain ⟨h₁, h₂⟩ := hs.ask g gs (by omega)
      simp only [Registry.census, askAll_cons]
      cases i with
      | zero =>
        cases hi
        refine ⟨_, rfl, fun g' hg' => ?_⟩
        cases hg'
        exact h₁
      | succ i =>
        rw [rank_succ, ← Nat.add_assoc]
        have hle : [g :: gs].countP outside ≤ 1 := List.countP_le_length
        exact ih h₂ (by omega) hi

/-- Two threads that the system does not give the same token have the same only if the system gives one of them the
number by which the counter serves the other, whose own number is out of range. -/
theorem tokens_meet {i j : Nat} {g g' : Int} {gs gs' : List Int} (hn : threads.length < 4294967296) (hij : i ≠ j)
    (hi : threads[i]? = some (g :: gs)) (hj : threads[j]? = some (g' :: gs'))
    (hd : 0 < g → g < 4294967296 → g ≠ g') : ∃ a b : Token,
    (fresh.census 0 threads)[i]? = some (List.replicate (gs.length + 1) a) ∧
    (fresh.census 0 threads)[j]? = some (List.replicate (gs'.length + 1) b) ∧
    (a = b ↔ (g' ≤ 0 ∨ 4294967296 ≤ g') ∧ g = rank threads j ∨ (g ≤ 0 ∨ 4294967296 ≤ g) ∧ g' = rank threads i) := by
  obtain ⟨a, ha, hag⟩ := serving_fresh.census (by omega) hi
  obtain ⟨b, hb, hbg⟩ := serving_fresh.census (by omega) hj
  refine ⟨a, b, ha, hb, ?_⟩
  replace hag : a.Given g (rank threads i) := by simpa using hag g rfl
  replace hbg : b.Given g' (rank threads j) := by simpa using hbg g' rfl
  rw [← Token.ofInt?_eq_none_iff, ← Token.ofInt?_eq_none_iff]
  unfold Token.Given at hag hbg
  cases hg : Token.ofInt? g with
  | some x =>
    rw [hg] at hag
    subst hag
    have hx := (Token.ofInt?_eq_some_iff g a).mp hg
    cases hg' : Token.ofInt? g' with
    | some y =>
      rw [hg'] at hbg
      subst hbg
      refine iff_of_false ?_ (by simp)
      rintro rfl
      have hlt := a.raw.toNat_lt
      have hne : a.raw.toNat ≠ 0 := fun h => a.ne_zero (UInt32.toNat_inj.mp h)
      exact hd (by omega) (by omega) (hx.trans ((Token.ofInt?_eq_some_iff g' a).mp hg').symm)
    | none =>
      rw [hg'] at hbg
      rw [Token.eq_iff_toNat, hbg, hx]
      simp only [true_and, reduceCtorEq, false_and, or_false]
      omega
  | none =>
    rw [hg] at hag
    cases hg' : Token.ofInt? g' with
    | some y =>
      rw [hg'] at hbg
      subst hbg
      rw [Token.eq_iff_toNat, hag, (Token.ofInt?_eq_some_iff g' b).mp hg', eq_comm]
      simp only [true_and, reduceCtorEq, false_and, false_or]
      omega
    | none =>
      rw [hg'] at hbg
      have hne : rank threads i ≠ rank threads j := by
        rcases Nat.lt_or_gt_of_ne hij with h | h
        · exact Nat.ne_of_lt (rank_lt hj (by simp [outside_cons, hg']) h)
        · exact Nat.ne_of_gt (rank_lt hi (by simp [outside_cons, hg]) h)
      refine iff_of_false (fun h => hne (by rw [← hag, ← hbg, h])) ?_
      rintro (⟨-, h⟩ | ⟨-, h⟩)
      · rw [(Token.ofInt?_eq_some_iff g b).mpr (by rw [h, hbg])] at hg
        cases hg
      · rw [(Token.ofInt?_eq_some_iff g' a).mpr (by rw [h, hag])] at hg'
        cases hg'

/-- The first thread has the number one from the system, and the second is the first that the counter serves. -/
theorem tokens_meet_first : ∃ a b : Token,
    (fresh.census 0 [[1], [0, 7]])[0]? = some [a] ∧ (fresh.census 0 [[1], [0, 7]])[1]? = some [b, b] ∧ a = b := by
  have hi : ([[1], [0, 7]] : List (List Int))[0]? = some [1] := rfl
  have hj : ([[1], [0, 7]] : List (List Int))[1]? = some [0, 7] := rfl
  obtain ⟨a, b, ha, hb, h⟩ := tokens_meet (by decide) (by decide) hi hj (by decide)
  exact ⟨a, b, ha, hb, h.mpr (.inl (by decide))⟩

/-- Threads that are given different numbers, or none, do not always have different tokens. -/
theorem tokens_not_distinct : ¬ ∀ threads : List (List Int), threads.length < 4294967296 →
    (threads.Pairwise fun ids ids' => ∀ g ∈ ids.head?, 0 < g → g < 4294967296 → g ∉ ids'.head?) →
    (fresh.census 0 threads).Pairwise fun as bs => ∀ a ∈ as, a ∉ bs :=
  fun h => absurd (h [[1], [0]] (by decide) (by decide)) (by decide)

end Registry
end OnceInit
