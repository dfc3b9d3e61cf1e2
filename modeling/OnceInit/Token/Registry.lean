import OnceInit.Table
import OnceInit.Token.Basic

/-! Where threads get their tokens. A thread asks once and keeps the answer: the number that the system gives
the thread if that can be a token, else the next number of a counter of the process. -/

namespace OnceInit

structure Registry where
  next : UInt32
  known : ThreadId → Option Token

namespace Registry

def fresh : Registry := ⟨1, fun _ => none⟩

/-- A counter that has come around to zero passes over it. -/
def draw (n : UInt32) : Token × UInt32 :=
  if h : n ≠ 0 then (⟨n, h⟩, n + 1) else (⟨1, by decide⟩, 2)

def ask (r : Registry) (t : ThreadId) (id : Int) : Token × Registry :=
  match r.known t with
  | some k => (k, r)
  | none =>
    match Token.ofInt? id with
    | some k => (k, { r with known := put r.known t (some k) })
    | none => ((draw r.next).1, ⟨(draw r.next).2, put r.known t (some (draw r.next).1)⟩)

theorem ask_known {r : Registry} {t : ThreadId} {k : Token} (h : r.known t = some k) (id : Int) :
    r.ask t id = (k, r) := by
  simp [ask, h]

theorem ask_of_numbered {r : Registry} {t : ThreadId} {id : Int} {k : Token} (hr : r.known t = none)
    (hk : Token.ofInt? id = some k) : r.ask t id = (k, { r with known := put r.known t (some k) }) := by
  simp [ask, hr, hk]

theorem ask_of_unnumbered {r : Registry} {t : ThreadId} {id : Int} (hr : r.known t = none)
    (hk : Token.ofInt? id = none) :
    r.ask t id = ((draw r.next).1, ⟨(draw r.next).2, put r.known t (some (draw r.next).1)⟩) := by
  simp [ask, hr, hk]

theorem known_ask (r : Registry) (t : ThreadId) (id : Int) :
    (r.ask t id).2.known t = some (r.ask t id).1 := by
  unfold ask
  split
  · assumption
  · split <;> simp

theorem known_ask_of_ne (r : Registry) {t u : ThreadId} (h : u ≠ t) (id : Int) :
    (r.ask t id).2.known u = r.known u := by
  unfold ask
  split
  · rfl
  · split <;> simp [put_of_ne _ _ h]

def askAll (r : Registry) (t : ThreadId) : List Int → List Token × Registry
  | [] => ([], r)
  | id :: ids =>
    let a := r.ask t id
    let rest := a.2.askAll t ids
    (a.1 :: rest.1, rest.2)

/-- Threads are created one after the other, numbered from `t`, and each asks as often as its list says. -/
def census (r : Registry) (t : ThreadId) : List (List Int) → List (List Token)
  | [] => []
  | ids :: rest =>
    let a := r.askAll t ids
    a.1 :: a.2.census (t + 1) rest

end Registry
end OnceInit
