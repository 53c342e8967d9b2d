/-!
# Pragmas

A declaration may carry pragmas, each named by a string.

* `Pragma`: the pragmas.
* `Pragma.name`: the string that names a pragma. No such name needs an escape between quotes.
-/

namespace ChapelSource

/-- A pragma on a declaration. -/
inductive Pragma where
  | noDoc | noInit | noAutoDestroy | noDefaultFunctions | noCopyReturn | alwaysRvf | doNotRvf
  | exportInit | fnSynchronizationFree | fnReturnsIteratorRecord | unsafeCode | localePrivate
  | dataClass | lastResort | ignoreNoinit | codegenForCpuAndGpu | plainOldData
  deriving DecidableEq

/-- The string that names a pragma. -/
def Pragma.name : Pragma → String
  | .noDoc => "no doc"
  | .noInit => "no init"
  | .noAutoDestroy => "no auto destroy"
  | .noDefaultFunctions => "no default functions"
  | .noCopyReturn => "no copy return"
  | .alwaysRvf => "always RVF"
  | .doNotRvf => "do not RVF"
  | .exportInit => "export init"
  | .fnSynchronizationFree => "fn synchronization free"
  | .fnReturnsIteratorRecord => "fn returns iterator"
  | .unsafeCode => "unsafe"
  | .localePrivate => "locale private"
  | .dataClass => "data class"
  | .lastResort => "last resort"
  | .ignoreNoinit => "ignore noinit"
  | .codegenForCpuAndGpu => "codegen for CPU and GPU"
  | .plainOldData => "plain old data"

end ChapelSource
