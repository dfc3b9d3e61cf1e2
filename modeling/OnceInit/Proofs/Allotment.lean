import OnceInit.Proofs.Tokens
import Mathlib.Data.List.Induction

/-! Which tokens threads get. They may ask in any order and as often as they like, and the system may give one of them
another number each time. All that counts is the number that a thread is given when it asks first and, where that cannot
be a token, how many threads came to the counter before it. -/

namespace OnceInit

structure Query where
  thread : ThreadId
  id : Int
  deriving DecidableEq

def firsts (qs : List Query) : List Query :=
  qs.foldl (fun fs q => if q.thread ∈ fs.map Query.thread then fs else fs ++ [q]) []

/-- The first queries of the threads that are given a number then which cannot be a token. -/
def unnumbered (qs : List Query) : List Query := (firsts qs).filter fun q => q.id ≤ 0 ∨ 4294967296 ≤ q.id

def inTurn (t : ThreadId) : List (List Int) → List Query
  | [] => []
  | ids :: rest => ids.map (Query.mk t) ++ inTurn (t + 1) rest

section First

variable {qs : List Query} {q p : Query}

theorem firsts_concat_known (h : q.thread ∈ (firsts qs).map Query.thread) : firsts (qs ++ [q]) = firsts qs := by
  unfold firsts at h ⊢
  rw [List.foldl_concat, if_pos h]

theorem firsts_concat_new (h : q.thread ∉ (firsts qs).map Query.thread) : firsts (qs ++ [q]) = firsts qs ++ [q] := by
  unfold firsts at h ⊢
  rw [List.foldl_concat, if_neg h]

theorem unnumbered_concat_known (h : q.thread ∈ (firsts qs).map Query.thread) :
    unnumbered (qs ++ [q]) = unnumbered qs := by
  rw [unnumbered, firsts_concat_known h, unnumbered]

theorem unnumbered_concat_new (h : q.thread ∉ (firsts qs).map Query.thread) :
    unnumbered (qs ++ [q]) = unnumbered qs ++ if Token.ofInt? q.id = none then [q] else [] := by
  rw [unnumbered, firsts_concat_new h, List.filter_append, unnumbered]
  simp only [Token.ofInt?_eq_none_iff, List.filter_cons, List.filter_nil, decide_eq_true_eq]

theorem length_unnumbered_le (qs : List Query) : (unnumbered qs).length ≤ (firsts qs).length := List.length_filter_le ..

theorem length_firsts_le (qs : List Query) (q : Query) : (firsts qs).length ≤ (firsts (qs ++ [q])).length := by
  by_cases h : q.thread ∈ (firsts qs).map Query.thread
  · exact Nat.le_of_eq (congrArg List.length (firsts_concat_known h).symm)
  · rw [firsts_concat_new h, List.length_append]
    exact Nat.le_add_right ..

theorem firsts_append_known (t : ThreadId) (ids : List Int) (h : t ∈ (firsts qs).map Query.thread) :
    firsts (qs ++ ids.map (Query.mk t)) = firsts qs := by
  induction ids generalizing qs with
  | nil => rw [List.map_nil, List.append_nil]
  | cons id ids ih =>
    have hid : firsts (qs ++ [⟨t, id⟩]) = firsts qs := firsts_concat_known h
    rw [List.map_cons, List.append_cons, ih (hid ▸ h), hid]

theorem length_firsts_append_le (qs : List Query) (t : ThreadId) (ids : List Int) :
    (firsts (qs ++ ids.map (Query.mk t))).length ≤ (firsts qs).length + 1 := by
  by_cases h : t ∈ (firsts qs).map Query.thread
  · rw [firsts_append_known t ids h]
    exact Nat.le_succ _
  · cases ids with
    | nil =>
      rw [List.map_nil, List.append_nil]
      exact Nat.le_succ _
    | cons id ids =>
      have hid : firsts (qs ++ [⟨t, id⟩]) = firsts qs ++ [⟨t, id⟩] := firsts_concat_new h
      rw [List.map_cons, List.append_cons, firsts_append_known t ids (by simp [hid]), hid, List.length_append]
      exact Nat.le_refl _

theorem length_firsts_append_inTurn_le (qs : List Query) (t : ThreadId) (threads : List (List Int)) :
    (firsts (qs ++ inTurn t threads)).length ≤ (firsts qs).length + threads.length := by
  induction threads generalizing qs t with
  | nil =>
    rw [inTurn, List.append_nil]
    exact Nat.le_refl _
  | cons ids rest ih =>
    have hrest := ih (qs ++ ids.map (Query.mk t)) (t + 1)
    have hids := length_firsts_append_le qs t ids
    rw [inTurn, ← List.append_assoc, List.length_cons]
    omega

theorem length_firsts_inTurn_le (threads : List (List Int)) : (firsts (inTurn 0 threads)).length ≤ threads.length := by
  simpa [firsts] using length_firsts_append_inTurn_le [] 0 threads

end First

namespace Registry

def answers (r : Registry) : List Query → List Token
  | [] => []
  | q :: qs => (r.ask q.thread q.id).1 :: (r.ask q.thread q.id).2.answers qs

def after (r : Registry) (qs : List Query) : Registry := qs.foldl (fun r q => (r.ask q.thread q.id).2) r

def tokenOf (r : Registry) (t : ThreadId) : Token := (r.known t).getD (draw r.next).1

variable {r : Registry} {t : ThreadId} {k : Token} {qs : List Query}

theorem tokenOf_of_known (hk : r.known t = some k) : r.tokenOf t = k := by
  rw [tokenOf, hk, Option.getD_some]

theorem after_append (r : Registry) (ps qs : List Query) : r.after (ps ++ qs) = (r.after ps).after qs :=
  List.foldl_append

theorem known_ask_of_known (hk : r.known t = some k) (q : Query) : (r.ask q.thread q.id).2.known t = some k := by
  by_cases h : t = q.thread
  · subst h
    rw [ask_known hk, hk]
  · rw [known_ask_of_ne r h, hk]

theorem known_after (hk : r.known t = some k) (qs : List Query) : (r.after qs).known t = some k := by
  induction qs generalizing r with
  | nil => exact hk
  | cons q qs ih => exact ih (known_ask_of_known hk q)

theorem answers_eq (r : Registry) (qs ps : List Query) :
    r.answers qs = qs.map fun q => ((r.after qs).after ps).tokenOf q.thread := by
  induction qs generalizing r with
  | nil => rfl
  | cons q qs ih =>
    have hk := known_after (known_after (known_ask r q.thread q.id) qs) ps
    have hq : ((r.after (q :: qs)).after ps).tokenOf q.thread = (r.ask q.thread q.id).1 := tokenOf_of_known hk
    rw [answers, ih, List.map_cons, hq]
    rfl

theorem askAll_eq (r : Registry) (t : ThreadId) (ids : List Int) :
    r.askAll t ids = (r.answers (ids.map (Query.mk t)), r.after (ids.map (Query.mk t))) := by
  induction ids generalizing r with
  | nil => rfl
  | cons id ids ih =>
    rw [askAll, ih]
    rfl

theorem census_eq (r : Registry) (t : ThreadId) (threads : List (List Int)) :
    r.census t threads =
      threads.mapIdx fun i ids => .replicate ids.length ((r.after (inTurn t threads)).tokenOf (t + i)) := by
  induction threads generalizing r t with
  | nil => rfl
  | cons ids rest ih =>
    have hshift : ∀ i, t + 1 + i = t + (i + 1) := Nat.succ_add_eq_add_succ t
    rw [census, askAll_eq, ih, answers_eq r _ (inTurn (t + 1) rest), inTurn, after_append, List.mapIdx_cons,
      List.map_map]
    simp only [hshift, Function.comp_def, List.map_const', Nat.add_zero]

/-- What the registry has written down when the threads of the queries `fs` have come to it, of which the counter has
served those of `us`. -/
structure Booked (r : Registry) (fs us : List Query) : Prop where
  next : r.next = UInt32.ofNat (us.length + 1)
  unknown : ∀ t, r.known t = none ↔ t ∉ fs.map Query.thread
  numbered : ∀ q ∈ fs, ∀ k, Token.ofInt? q.id = some k → r.known q.thread = some k
  counted : ∀ i q, us[i]? = some q → ∃ k, r.known q.thread = some k ∧ k.raw.toNat = i + 1

theorem booked_fresh : fresh.Booked [] [] where
  next := rfl
  unknown := fun _ => iff_of_true rfl List.not_mem_nil
  numbered := fun _ h => absurd h List.not_mem_nil
  counted := fun _ _ h => by cases h

namespace Booked

variable {fs us : List Query} {p q : Query}

theorem known (hb : r.Booked fs us) (hq : q.thread ∈ fs.map Query.thread) : ∃ k, r.known q.thread = some k :=
  Option.ne_none_iff_exists'.mp fun h => (hb.unknown q.thread).mp h hq

theorem unknown_ask (hb : r.Booked fs us) (q : Query) (t : ThreadId) :
    (r.ask q.thread q.id).2.known t = none ↔ t ∉ (fs ++ [q]).map Query.thread := by
  rw [List.map_append, List.mem_append, not_or]
  by_cases ht : t = q.thread
  · subst ht
    simp [known_ask]
  · rw [known_ask_of_ne r ht, hb.unknown]
    simp [ht]

theorem numbered_ask (hb : r.Booked fs us) (hq : r.known q.thread = none) :
    ∀ p ∈ fs ++ [q], ∀ k, Token.ofInt? p.id = some k → (r.ask q.thread q.id).2.known p.thread = some k := by
  intro p hp k hk
  rcases List.mem_append.mp hp with hp | hp
  · exact known_ask_of_known (hb.numbered p hp k hk) q
  · cases List.mem_singleton.mp hp
    rw [known_ask, ask_of_numbered hq hk]

theorem counted_ask (hb : r.Booked fs us) (q : Query) :
    ∀ i p, us[i]? = some p → ∃ k, (r.ask q.thread q.id).2.known p.thread = some k ∧ k.raw.toNat = i + 1 := by
  intro i p hp
  obtain ⟨k, hk, hi⟩ := hb.counted i p hp
  exact ⟨k, known_ask_of_known hk q, hi⟩

theorem of_numbered (hb : r.Booked fs us) (hq : r.known q.thread = none) (hk : Token.ofInt? q.id = some k) :
    (r.ask q.thread q.id).2.Booked (fs ++ [q]) us where
  next := by
    rw [ask_of_numbered hq hk]
    exact hb.next
  unknown := hb.unknown_ask q
  numbered := hb.numbered_ask hq
  counted := hb.counted_ask q

theorem of_unnumbered (hb : r.Booked fs us) (hq : r.known q.thread = none) (hk : Token.ofInt? q.id = none)
    (hn : us.length + 1 < 4294967296) : (r.ask q.thread q.id).2.Booked (fs ++ [q]) (us ++ [q]) := by
  have ha := ask_of_unnumbered hq hk
  rw [hb.next] at ha
  obtain ⟨hdraw, hnext⟩ := draw_ofNat hn
  refine ⟨?_, hb.unknown_ask q, hb.numbered_ask hq, fun i p hp => ?_⟩
  · rw [ha, List.length_append]
    exact hnext
  · rcases Nat.lt_trichotomy i us.length with hi | rfl | hi
    · rw [List.getElem?_append_left hi] at hp
      exact hb.counted_ask q i p hp
    · rw [List.getElem?_concat_length] at hp
      cases hp
      exact ⟨_, known_ask r q.thread q.id, by rw [ha]; exact hdraw⟩
    · rw [List.getElem?_eq_none (by simpa using Nat.succ_le_of_lt hi)] at hp
      cases hp

theorem tokenOf_numbered (hb : r.Booked fs us) (hq : q ∈ fs) (hpos : 0 < q.id) (hlt : q.id < 4294967296) :
    (r.tokenOf q.thread).raw.toNat = q.id := by
  cases hk : Token.ofInt? q.id with
  | none =>
    have hout := (Token.ofInt?_eq_none_iff q.id).mp hk
    omega
  | some k => rw [tokenOf_of_known (hb.numbered q hq k hk), (Token.ofInt?_eq_some_iff q.id k).mp hk]

theorem tokenOf_counted (hb : r.Booked fs us) {i : Nat} (hq : us[i]? = some q) :
    (r.tokenOf q.thread).raw.toNat = i + 1 := by
  obtain ⟨k, hk, hi⟩ := hb.counted i q hq
  rw [tokenOf_of_known hk, hi]

theorem tokenOf_apart (hb : r.Booked fs us) (hp : p ∈ us) (hq : q ∈ us)
    (h : r.tokenOf p.thread = r.tokenOf q.thread) : p.thread = q.thread := by
  obtain ⟨i, hi⟩ := List.mem_iff_getElem?.mp hp
  obtain ⟨j, hj⟩ := List.mem_iff_getElem?.mp hq
  have hij : i + 1 = j + 1 := by rw [← hb.tokenOf_counted hi, ← hb.tokenOf_counted hj, h]
  cases hij
  cases hi.symm.trans hj
  rfl

end Booked

theorem booked_after (hn : (firsts qs).length < 4294967296) :
    (fresh.after qs).Booked (firsts qs) (unnumbered qs) := by
  induction qs using List.reverseRecOn with
  | nil => exact booked_fresh
  | append_singleton qs q ih =>
    have hb := ih (Nat.lt_of_le_of_lt (length_firsts_le qs q) hn)
    rw [after_append]
    change ((fresh.after qs).ask q.thread q.id).2.Booked _ _
    by_cases hq : q.thread ∈ (firsts qs).map Query.thread
    · obtain ⟨k, hk⟩ := hb.known hq
      rw [ask_known hk, firsts_concat_known hq, unnumbered_concat_known hq]
      exact hb
    · have hk := (hb.unknown q.thread).mpr hq
      rw [firsts_concat_new hq, List.length_append] at hn
      rw [firsts_concat_new hq, unnumbered_concat_new hq]
      cases hid : Token.ofInt? q.id with
      | some k => simpa using hb.of_numbered hk hid
      | none => exact hb.of_unnumbered hk hid (Nat.lt_of_le_of_lt (Nat.succ_le_succ (length_unnumbered_le qs)) hn)

/-- The tokens that threads are given when these queries are the first ones of a process. The counter moves for the
threads that it serves and for no others. -/
structure Allots (qs : List Query) (token : ThreadId → Token) : Prop where
  answers : fresh.answers qs = qs.map fun q => token q.thread
  numbered : ∀ q ∈ firsts qs, 0 < q.id → q.id < 4294967296 → (token q.thread).raw.toNat = q.id
  counted : ∀ i q, (unnumbered qs)[i]? = some q → (token q.thread).raw.toNat = i + 1
  apart : ∀ p ∈ unnumbered qs, ∀ q ∈ unnumbered qs, token p.thread = token q.thread → p.thread = q.thread
  next : (fresh.after qs).next = UInt32.ofNat ((unnumbered qs).length + 1)

theorem allots_after (hn : (firsts qs).length < 4294967296) : Allots qs (fresh.after qs).tokenOf :=
  have hb := booked_after hn
  { answers := answers_eq fresh qs []
    numbered := fun _ => hb.tokenOf_numbered
    counted := fun _ _ => hb.tokenOf_counted
    apart := fun _ hp _ => hb.tokenOf_apart hp
    next := hb.next }

/-- A thread has one token, which is never zero: the number that it is given when it asks first, or else the number of
the threads that the counter has served up to it. This holds of threads that ask in turns, and so of a census. -/
theorem tokens_allotted :
    (∀ qs, (firsts qs).length < 4294967296 → ∃ token, Allots qs token) ∧
    ∀ threads, threads.length < 4294967296 → ∃ token, Allots (inTurn 0 threads) token ∧
      fresh.census 0 threads = threads.mapIdx fun t ids => .replicate ids.length (token t) := by
  refine ⟨fun qs hn => ⟨_, allots_after hn⟩, fun threads hn => ⟨_, allots_after ?_, ?_⟩⟩
  · exact Nat.lt_of_le_of_lt (length_firsts_inTurn_le threads) hn
  · simpa only [Nat.zero_add] using census_eq fresh 0 threads

/-- The first thread that asks is given a number below zero, and the last one a number too large by 2³². The counter
serves them both. -/
theorem tokens_allotted_mixed :
    (∃ a b c : Token, fresh.answers [⟨2, -5⟩, ⟨0, 7⟩, ⟨2, 9⟩, ⟨1, 4294967303⟩, ⟨0, 0⟩] = [a, b, a, c, b] ∧
      a.raw.toNat = 1 ∧ b.raw.toNat = 7 ∧ c.raw.toNat = 2) ∧
    ∃ a b : Token, fresh.census 0 [[0, 3], [], [4294967296]] = [[a, a], [], [b]] ∧
      a.raw.toNat = 1 ∧ b.raw.toNat = 2 := by
  have hn : (firsts [⟨2, -5⟩, ⟨0, 7⟩, ⟨2, 9⟩, ⟨1, 4294967303⟩, ⟨0, 0⟩]).length < 4294967296 := by decide
  obtain ⟨token, h⟩ := tokens_allotted.1 _ hn
  obtain ⟨token', h', hc⟩ := tokens_allotted.2 [[0, 3], [], [4294967296]] (by decide)
  have hb : ((token 0).raw.toNat : Int) = 7 := h.numbered ⟨0, 7⟩ (by decide) (by decide) (by decide)
  exact ⟨⟨token 2, token 0, token 1, h.answers, h.counted 0 ⟨2, -5⟩ (by decide), Int.ofNat_inj.mp hb,
      h.counted 1 ⟨1, 4294967303⟩ (by decide)⟩,
    token' 0, token' 2, hc, h'.counted 0 ⟨0, 0⟩ (by decide), h'.counted 1 ⟨2, 4294967296⟩ (by decide)⟩

end Registry
end OnceInit
