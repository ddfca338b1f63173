import Aero.Lib.BitRuns
import Aero.Types
import Mathlib.Algebra.Order.Floor.Div

namespace Aero.Shared

inductive LayoutError
  | zeroSized
  | tileSizeNotPowerOfTwo (tileSize : U32)
  | sizeOverflow (what : String)
  deriving DecidableEq, Repr

structure TileLayout where
  width : Nat
  height : Nat
  tileSize : Nat
  tilesX : Nat
  tilesY : Nat
  dirtyWordsPerBuffer : Nat
  deriving DecidableEq, Repr

namespace TileLayout

-- The checks of the stride and of the size in bytes are left out.
def new (width height tileSize : U32) : Except LayoutError TileLayout :=
  if width = 0 ∨ height = 0 then .error .zeroSized
  else if tileSize ≠ 0 ∧ tileSize &&& (tileSize - 1) ≠ 0 then
    .error (.tileSizeNotPowerOfTwo tileSize)
  else if tileSize = 0 then .ok ⟨width.toNat, height.toNat, 0, 0, 0, 0⟩
  else
    let tilesX := width.toNat ⌈/⌉ tileSize.toNat
    let tilesY := height.toNat ⌈/⌉ tileSize.toNat
    if 2 ^ 32 ≤ tilesX * tilesY ⌈/⌉ 32 then .error (.sizeOverflow "dirty_words_per_buffer")
    else
      .ok ⟨width.toNat, height.toNat, tileSize.toNat, tilesX, tilesY, tilesX * tilesY ⌈/⌉ 32⟩

def tileCount (layout : TileLayout) : Nat :=
  layout.tilesX * layout.tilesY

end TileLayout

structure DirtyRect where
  x : Nat
  y : Nat
  width : Nat
  height : Nat
  deriving DecidableEq, Repr

def maxDirtyRects : Nat := 65536

def dirtyBitIsSet (words : List U32) (tileIndex : Nat) : Bool :=
  (words.getD (tileIndex / 32) 0).getLsbD (tileIndex % 32)

def dirtyWordsCoverAllTiles (tileCount : Nat) (dirtyWords : List U32) : Bool :=
  if tileCount = 0 then true
  else
    let fullWords := tileCount / 32
    let remaining := tileCount % 32
    if dirtyWords.length < fullWords + if remaining = 0 then 0 else 1 then false
    else if (dirtyWords.take fullWords).any fun word => word ≠ 0xffff_ffff then false
    else if remaining = 0 then true
    else
      let mask : U32 := (1#32 <<< remaining) - 1
      dirtyWords.getD fullWords 0 &&& mask = mask

namespace TileLayout

def fullFrame (layout : TileLayout) : DirtyRect :=
  ⟨0, 0, layout.width, layout.height⟩

-- The rectangle of the tiles from `run.1` to `run.2` in row `ty`, clipped at the edges of the frame.
-- The products of two `u32` are computed in `u64`.
def runRect (layout : TileLayout) (ty : Nat) (run : Nat × Nat) : DirtyRect :=
  let y := ty * layout.tileSize
  let x := run.1 * layout.tileSize
  let width := (run.2 - run.1) * layout.tileSize
  let width := if layout.width < x + width then layout.width - x else width
  let height := layout.tileSize
  let height := if layout.height < y + height then layout.height - y else height
  ⟨x % 2 ^ 32, y % 2 ^ 32, width % 2 ^ 32, height % 2 ^ 32⟩

def rowRuns (layout : TileLayout) (dirtyWords : List U32) (ty : Nat) : List (Nat × Nat) :=
  BitRuns.runs (fun tx => dirtyBitIsSet dirtyWords (ty * layout.tilesX + tx)) layout.tilesX
    layout.tilesX 0

def runRects (layout : TileLayout) (dirtyWords : List U32) : List DirtyRect :=
  ((List.range layout.tilesY).takeWhile fun ty => ty * layout.tileSize < layout.height).flatMap
    fun ty => (layout.rowRuns dirtyWords ty).map (layout.runRect ty)

end TileLayout

-- The loop gives up at the rectangle that would be one too many.
def dirtyTilesToRects (layout : TileLayout) (dirtyWords : List U32) : List DirtyRect :=
  if layout.tileSize = 0 ∨ layout.dirtyWordsPerBuffer = 0 then [layout.fullFrame]
  else if layout.tileCount = 0 then []
  else if dirtyWordsCoverAllTiles layout.tileCount dirtyWords then [layout.fullFrame]
  else if maxDirtyRects < (layout.runRects dirtyWords).length then [layout.fullFrame]
  else layout.runRects dirtyWords

end Aero.Shared
