import Acutance.Word

namespace Acutance

/-- How the three samples of a pixel are read. -/
inductive ColorSpace where
  | rgb
  | hsv
  deriving DecidableEq, Repr

/-- The name of a color space in messages. -/
def ColorSpace.name : ColorSpace → String
  | .rgb => "Rgb"
  | .hsv => "Hsv"

/-- One of the three samples of a pixel. -/
inductive Channel where
  | first
  | second
  | third
  deriving DecidableEq, Repr

namespace Channel

/-- The channel of red. -/
abbrev red : Channel := first

/-- The channel of green. -/
abbrev green : Channel := second

/-- The channel of blue. -/
abbrev blue : Channel := third

/-- The channel of hue. -/
abbrev hue : Channel := first

/-- The channel of saturation. -/
abbrev saturation : Channel := second

/-- The channel of value. -/
abbrev value : Channel := third

/-- All channels in the order in which a pixel holds them. -/
def all : List Channel := [first, second, third]

end Channel

/-- The three samples of one place. -/
structure Pixel where
  first : Sample
  second : Sample
  third : Sample
  deriving DecidableEq, Repr, Inhabited

namespace Pixel

/-- The number of samples in a pixel. -/
def channelCount : Nat := 3

/-- A pixel whose samples are all alike. -/
def gray (s : Sample) : Pixel := ⟨s, s, s⟩

/-- The sample of a channel. -/
def get (p : Pixel) : Channel → Sample
  | .first => p.first
  | .second => p.second
  | .third => p.third

/-- The pixel with one sample replaced. -/
def set (p : Pixel) (c : Channel) (s : Sample) : Pixel :=
  match c with
  | .first => { p with first := s }
  | .second => { p with second := s }
  | .third => { p with third := s }

/-- The samples in the order of the channels. -/
def samples (p : Pixel) : List Sample := [p.first, p.second, p.third]

/-- Computes each sample anew, in the order of the channels. -/
def mapM {ε : Type} (f : Sample → Except ε Sample) (p : Pixel) : Except ε Pixel := do
  let first ← f p.first
  let second ← f p.second
  let third ← f p.third
  return ⟨first, second, third⟩

@[simp] theorem get_set_self (p : Pixel) (c : Channel) (s : Sample) : (p.set c s).get c = s := by
  cases c <;> rfl

theorem get_set_of_ne (p : Pixel) {c d : Channel} (s : Sample) (hne : c ≠ d) :
    (p.set c s).get d = p.get d := by
  cases c <;> cases d <;> simp_all [get, set]

@[ext] theorem ext_get {p q : Pixel} (h : ∀ c, p.get c = q.get c) : p = q := by
  cases p
  cases q
  simpa [get] using And.intro (h .first) (And.intro (h .second) (h .third))

end Pixel

end Acutance
