import Mathlib.Data.Int.Notation

/-!
# The error codes of RT-Thread

The codes of `rtdef.h` that the modelled functions return, negated.  Every build
of the board defines `RT_USING_LIBC`, so `RT_ERROR` is 255 and the others are
those of the C library.  The values here are the ones of newlib, the library of
the GCC build that `rtconfig.py` selects.
-/

namespace Hc32Board.RtThread

/-- `RT_ERROR`. -/
def rtError : Int := 255

/-- `RT_ETIMEOUT`, which is `ETIMEDOUT`. -/
def rtETimeout : Int := 116

/-- `RT_ENOMEM`. -/
def rtENoMem : Int := 12

/-- `RT_EINVAL`. -/
def rtEInval : Int := 22

end Hc32Board.RtThread
