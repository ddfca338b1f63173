import Aero.Jit.PageVersions
import Aero.Tier2.Ir

namespace Aero.Tier2

structure Block where
  startRip : U64
  codeLen : U32
  deriving DecidableEq, Repr

def pagesThrough (first last : Nat) : List Nat :=
  List.range' first (last + 1 - first)

def blockPages (ipMask : Nat) (block : Block) : List Nat :=
  let len := max block.codeLen.toNat 1
  let start := block.startRip.toNat &&& ipMask
  let startPage := start >>> pageShift
  if ipMask = 2 ^ 64 - 1 then pagesThrough startPage (saturatingAdd start (len - 1) >>> pageShift)
  else
    let maxPage := ipMask >>> pageShift
    let endPage := (saturatingAdd start (len - 1) &&& ipMask) >>> pageShift
    if startPage ≤ endPage then pagesThrough startPage endPage
    else
      -- the code wraps past the width of the instruction pointer
      pagesThrough startPage maxPage ++ pagesThrough 0 endPage

-- The pages are collected in a `BTreeSet`: each one once, in ascending order.
def computeCodeVersionGuards (ipMask : Nat) (versions : PageVersionTracker) (blocks : List Block)
    (exitRip : U64) : List Instr :=
  ((blocks.flatMap (blockPages ipMask)).dedup.mergeSort fun a b => a ≤ b).map fun page =>
    .guardCodeVersion (BitVec.ofNat 64 page) (versions.version page) exitRip

inductive IpWidth
  | bits16
  | bits32
  | bits64
  deriving DecidableEq, Repr

namespace IpWidth

def size : IpWidth → Nat
  | bits16 => 2 ^ 16
  | bits32 => 2 ^ 32
  | bits64 => 2 ^ 64

def ipMask (ip : IpWidth) : Nat :=
  ip.size - 1

end IpWidth

end Aero.Tier2
