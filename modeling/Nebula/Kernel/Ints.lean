import Nebula.Kernel.IpcManager

/-! The kernel with counters that are ints, as they are declared. -/

namespace Nebula

open CText

/-- The result of an addition or subtraction of two ints, which wraps around. -/
def wrapped (value : Int) : Int := value.bmod 4294967296

theorem wrapped_wrapped (value : Int) : wrapped (wrapped value) = wrapped value := Int.bmod_bmod

theorem wrapped_add (value other : Int) : wrapped (wrapped value + other) = wrapped (value + other) :=
  Int.bmod_add_bmod

theorem wrapped_sub (value other : Int) : wrapped (wrapped value - other) = wrapped (value - other) :=
  Int.bmod_sub_bmod

theorem wrapped_of_inInt {value : Int} (fits : InInt value) : wrapped value = value := by
  unfold InInt intMin intMax at fits
  exact Int.bmod_eq_of_le (by omega) (by omega)

/-- The counters that are added to and subtracted from, each brought back into an int. -/
def Resources.ints (r : Resources) : Resources :=
  { r with freeRam := wrapped r.freeRam, freeHdd := wrapped r.freeHdd, freeCores := wrapped r.freeCores }

namespace Kernel

/-- The kernel with its counters brought back into ints. -/
def ints (k : Kernel) : Kernel := { k with resources := k.resources.ints }

end Kernel

end Nebula
