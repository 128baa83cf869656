/-!
# Stretches of a text

Offsets and lengths count characters, so they index the list of characters of a text directly.
-/

namespace FourGL

/-- A stretch of a text: where it starts and how many characters it holds. -/
structure Span where
  start : Nat
  length : Nat
deriving DecidableEq, Inhabited

namespace Span

/-- The stretch from `start` up to `stop`; empty when `stop` comes first. -/
def between (start stop : Nat) : Span := ⟨start, stop - start⟩

/-- The stretch of no characters at `pos`. -/
def empty (pos : Nat) : Span := ⟨pos, 0⟩

/-- The offset just past the last character. -/
def stop (s : Span) : Nat := s.start + s.length

def isEmpty (s : Span) : Bool := s.length == 0

def contains (s : Span) (pos : Nat) : Bool := s.start ≤ pos && pos < s.stop

/-- The half-open interval notation `[start, stop)`. -/
def render (s : Span) : String := s!"[{s.start}, {s.stop})"

/-- The short notation `start..stop`. -/
def renderShort (s : Span) : String := s!"{s.start}..{s.stop}"

theorem stop_between {start stop : Nat} (h : start ≤ stop) :
    (between start stop).stop = stop := by
  simp only [Span.stop, between]; omega

end Span

end FourGL
