import Aero.Types

namespace Aero.Net.HttpRange

inductive ByteRangeSpec
  | fromTo (start last : Nat)
  | fromStart (start : Nat)
  | suffix (len : Nat)
  deriving DecidableEq, Repr

structure ResolvedByteRange where
  start : Nat
  last : Nat
  deriving DecidableEq, Repr

inductive RangeResolveError
  | unsatisfiable
  deriving DecidableEq, Repr

def resolveOne (len : Nat) : ByteRangeSpec → Option ResolvedByteRange
  | .fromTo start last =>
    if len ≤ start then none
    else if min last (len - 1) < start then none
    else some { start, last := min last (len - 1) }
  | .fromStart start => if len ≤ start then none else some { start, last := len - 1 }
  | .suffix suffixLen =>
    if suffixLen = 0 then none
    else if len ≤ suffixLen then some { start := 0, last := len - 1 }
    else some { start := len - suffixLen, last := len - 1 }

def coalesceLoop (cur : ResolvedByteRange) : List ResolvedByteRange → List ResolvedByteRange
  | [] => [cur]
  | r :: ranges =>
    if r.start ≤ min (cur.last + 1) (2 ^ 64 - 1) then
      coalesceLoop { cur with last := max cur.last r.last } ranges
    else
      cur :: coalesceLoop r ranges

def coalesceSorted : List ResolvedByteRange → List ResolvedByteRange
  | []            => []
  | cur :: ranges => coalesceLoop cur ranges

def resolveRanges (specs : List ByteRangeSpec) (len : Nat) (coalesce : Bool) :
    Except RangeResolveError (List ResolvedByteRange) :=
  if len = 0 then .error .unsatisfiable
  else
    let resolved := specs.filterMap (resolveOne len)
    if resolved = [] then .error .unsatisfiable
    else if coalesce then .ok (coalesceSorted (resolved.mergeSort (·.start ≤ ·.start)))
    else .ok resolved

end Aero.Net.HttpRange
