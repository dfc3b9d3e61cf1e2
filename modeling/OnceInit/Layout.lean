import OnceInit.Cell.Claim

/-! The form of guard cells that a target prescribes, and the targets that a build may be for. -/

namespace OnceInit

/-- The width is in bytes. Every width but four counts as wide. -/
structure Layout where
  width : Nat
  scheme : Scheme
  deriving DecidableEq

namespace Layout

def cellWidth (l : Layout) : Width := if l.width = 4 then .narrow else .wide

def noticesOwner (l : Layout) : Bool := l.scheme.noticesOwner l.cellWidth

def outline (l : Layout) : Outline :=
  .record "Layout" (.cons "width" (.nat l.width) (.cons "encoding" l.scheme.outline .nil))

end Layout

structure Build where
  width : Width
  scheme : Scheme
  tracing : Bool
  deriving DecidableEq

namespace Build

def standard : Build := ⟨.wide, .owner, true⟩
def flagged : Build := ⟨.wide, .flag, true⟩
def compact : Build := ⟨.narrow, .flag, false⟩

def layout (b : Build) : Layout := ⟨b.width.size, b.scheme⟩

theorem noticesOwner_layout (b : Build) : b.layout.noticesOwner = b.scheme.noticesOwner b.width := by
  rcases b with ⟨w, s, t⟩
  cases w <;> cases s <;> rfl

end Build

def Scheme.protocolOutline (s : Scheme) : Outline :=
  .record "GuardProtocol" (.cons "encoding" s.outline .nil)

end OnceInit
