import Aero.Shared.DirtyTiles
import Mathlib.Data.List.TakeWhile

namespace Aero.Shared

open List Nat

def DirtyRect.Contains (r : DirtyRect) (px py : Nat) : Prop :=
  (r.x ≤ px ∧ px < r.x + r.width) ∧ r.y ≤ py ∧ py < r.y + r.height

def TileLayout.DirtyPixel (layout : TileLayout) (dirtyWords : List U32) (px py : Nat) : Prop :=
  (px < layout.width ∧ py < layout.height) ∧ dirtyBitIsSet dirtyWords
    (py / layout.tileSize * layout.tilesX + px / layout.tileSize) = true

structure Covers (layout : TileLayout) (dirtyWords : List U32) (rects : List DirtyRect) : Prop where
  inside : ∀ r ∈ rects, r.x + r.width ≤ layout.width ∧ r.y + r.height ≤ layout.height
  disjoint : rects.Pairwise fun r r' => ∀ px py, ¬(r.Contains px py ∧ r'.Contains px py)
  cover : ∀ px py, (∃ r ∈ rects, r.Contains px py) ↔ layout.DirtyPixel dirtyWords px py

theorem lt_ceilDiv_iff (ht : 0 < t) : i < a ⌈/⌉ t ↔ i * t < a := by
  rw [← not_le, ceilDiv_le_iff_le_mul ht, not_le, Nat.mul_comm]

theorem div_lt_ceilDiv (ht : 0 < t) (hx : x < a) : x / t < a ⌈/⌉ t :=
  (lt_ceilDiv_iff ht).mpr ((div_mul_le_self x t).trans_lt hx)

namespace TileLayout

variable {layout : TileLayout} {dirtyWords : List U32}

structure Tiled (layout : TileLayout) : Prop where
  width_lt : layout.width < 2 ^ 32
  height_lt : layout.height < 2 ^ 32
  tileSize_pos : 0 < layout.tileSize
  tilesX : layout.tilesX = layout.width ⌈/⌉ layout.tileSize
  tilesY : layout.tilesY = layout.height ⌈/⌉ layout.tileSize
  tileCount_pos : 0 < layout.tileCount
  dirtyWords : layout.dirtyWordsPerBuffer = layout.tileCount ⌈/⌉ 32

theorem tiled_of_new {width height tileSize : U32} (h : new width height tileSize = .ok layout) :
    layout.tileSize = 0 ∨ layout.Tiled := by
  rw [new] at h
  split_ifs at h with hzero hpow htile
  · cases h
    exact .inl rfl
  · dsimp only at h
    split at h
    · cases h
    · cases h
      obtain ⟨hwidth, hheight⟩ := not_or.mp hzero
      have hpos {v : U32} (hv : v ≠ 0) : 0 < v.toNat :=
        Nat.pos_of_ne_zero fun hz => hv (BitVec.eq_of_toNat_eq hz)
      have htile := hpos htile
      refine .inr ⟨width.isLt, height.isLt, htile, rfl, rfl, Nat.mul_pos ?_ ?_, rfl⟩
      · exact Nat.lt_of_le_of_lt (Nat.zero_le _) (div_lt_ceilDiv htile (hpos hwidth))
      · exact Nat.lt_of_le_of_lt (Nat.zero_le _) (div_lt_ceilDiv htile (hpos hheight))

namespace Tiled

variable (h : layout.Tiled)
include h

theorem runRect (hty : ty < layout.tilesY) (hrun : run.1 < run.2 ∧ run.2 ≤ layout.tilesX) :
    ((layout.runRect ty run).x + (layout.runRect ty run).width ≤ layout.width ∧
      (layout.runRect ty run).y + (layout.runRect ty run).height ≤ layout.height) ∧
    ∀ px py, (layout.runRect ty run).Contains px py ↔ (px < layout.width ∧ py < layout.height) ∧
      py / layout.tileSize = ty ∧ run.1 ≤ px / layout.tileSize ∧ px / layout.tileSize < run.2 := by
  have hx := (lt_ceilDiv_iff h.tileSize_pos).mp (h.tilesX ▸ hrun.1.trans_le hrun.2)
  have hy := (lt_ceilDiv_iff h.tileSize_pos).mp (h.tilesY ▸ hty)
  have hend : run.2 * layout.tileSize =
      run.1 * layout.tileSize + (run.2 - run.1) * layout.tileSize := by
    rw [← Nat.add_mul, Nat.add_sub_cancel' hrun.1.le]
  have hwidth := h.width_lt
  have hheight := h.height_lt
  have hnext : (ty + 1) * layout.tileSize = ty * layout.tileSize + layout.tileSize :=
    Nat.succ_mul ..
  have hrow py : py / layout.tileSize = ty ↔
      ty * layout.tileSize ≤ py ∧ py < (ty + 1) * layout.tileSize := by
    rw [← Nat.le_div_iff_mul_le h.tileSize_pos, ← Nat.div_lt_iff_lt_mul h.tileSize_pos]
    omega
  simp only [DirtyRect.Contains, hrow, Nat.le_div_iff_mul_le h.tileSize_pos,
    Nat.div_lt_iff_lt_mul h.tileSize_pos]
  dsimp only [TileLayout.runRect]
  generalize run.1 * layout.tileSize = x at *
  generalize ty * layout.tileSize = y at *
  generalize (run.2 - run.1) * layout.tileSize = w at *
  split_ifs <;> exact ⟨by omega, fun px py => by omega⟩

theorem runRects_eq : layout.runRects dirtyWords = (range layout.tilesY).flatMap fun ty =>
    (layout.rowRuns dirtyWords ty).map (layout.runRect ty) := by
  have hrows : (range layout.tilesY).takeWhile
      (fun ty => ty * layout.tileSize < layout.height) = range layout.tilesY :=
    takeWhile_eq_self_iff.mpr fun ty hty => decide_eq_true
      ((lt_ceilDiv_iff h.tileSize_pos).mp (h.tilesY ▸ mem_range.mp hty))
  rw [runRects, hrows]

theorem covers (dirtyWords : List U32) : Covers layout dirtyWords (layout.runRects dirtyWords) := by
  have hruns ty := BitRuns.runs_spec
    (p := fun tx => dirtyBitIsSet dirtyWords (ty * layout.tilesX + tx))
    (le_add_left layout.tilesX 0)
  have hrect {ty : Nat} (hty : ty ∈ range layout.tilesY) {run : Nat × Nat}
      (hrun : run ∈ layout.rowRuns dirtyWords ty) :=
    h.runRect (mem_range.mp hty) ((hruns ty).1 run hrun).2
  rw [h.runRects_eq]
  refine ⟨fun r hr => ?inside, pairwise_flatMap.mpr ⟨fun ty hty => ?row, ?rows⟩,
    fun px py => ?cover⟩
  case inside =>
    obtain ⟨ty, hty, hr⟩ := mem_flatMap.mp hr
    obtain ⟨run, hrun, rfl⟩ := mem_map.mp hr
    exact (hrect hty hrun).1
  case row =>
    refine pairwise_map.mpr ((hruns ty).2.1.imp_of_mem fun ha hb hle px py hboth => ?_)
    have hpa := ((hrect hty ha).2 px py).mp hboth.1
    have hpb := ((hrect hty hb).2 px py).mp hboth.2
    omega
  case rows =>
    refine pairwise_lt_range.imp_of_mem fun hty hty' hlt r hr r' hr' px py hboth => ?_
    obtain ⟨run, hrun, rfl⟩ := mem_map.mp hr
    obtain ⟨run', hrun', rfl⟩ := mem_map.mp hr'
    have hpa := ((hrect hty hrun).2 px py).mp hboth.1
    have hpb := ((hrect hty' hrun').2 px py).mp hboth.2
    omega
  case cover =>
    constructor
    · rintro ⟨r, hr, hcontains⟩
      obtain ⟨ty, hty, hr⟩ := mem_flatMap.mp hr
      obtain ⟨run, hrun, rfl⟩ := mem_map.mp hr
      obtain ⟨hframe, rfl, hin⟩ := ((hrect hty hrun).2 px py).mp hcontains
      exact ⟨hframe, (((hruns _).2.2 _).mp ⟨run, hrun, hin⟩).2.2⟩
    · rintro ⟨hframe, hdirty⟩
      have hty := mem_range.mpr (h.tilesY ▸ div_lt_ceilDiv h.tileSize_pos hframe.2)
      have htx := h.tilesX ▸ div_lt_ceilDiv h.tileSize_pos hframe.1
      obtain ⟨run, hrun, hin⟩ := ((hruns _).2.2 _).mpr ⟨zero_le _, htx, hdirty⟩
      exact ⟨_, mem_flatMap.mpr ⟨_, hty, mem_map_of_mem hrun⟩,
        ((hrect hty hrun).2 px py).mpr ⟨hframe, rfl, hin⟩⟩

end Tiled

end TileLayout

-- The rectangles of a frame cover its dirty tiles, unless there are no tiles, all of them are dirty
-- or the rectangles are too many: then it is one rectangle with the whole frame.
theorem dirtyTilesToRects_covers (width height tileSize : U32) (layout : TileLayout)
    (h : TileLayout.new width height tileSize = .ok layout) (dirtyWords : List U32) :
    Covers layout dirtyWords (dirtyTilesToRects layout dirtyWords) ∨
    (dirtyTilesToRects layout dirtyWords = [layout.fullFrame] ∧
      (layout.tileSize = 0 ∨ dirtyWordsCoverAllTiles layout.tileCount dirtyWords = true ∨
        maxDirtyRects < (layout.runRects dirtyWords).length)) := by
  rw [dirtyTilesToRects]
  rcases TileLayout.tiled_of_new h with hzero | htiled
  · exact .inr ⟨if_pos (.inl hzero), .inl hzero⟩
  · have hcount := htiled.tileCount_pos
    split_ifs with hnone hempty hall hmany
    · have hwords := div_lt_ceilDiv (t := 32) (by decide) hcount
      have hpos := htiled.tileSize_pos
      rw [htiled.dirtyWords] at hnone
      omega
    · exact absurd hempty hcount.ne'
    · exact .inr ⟨rfl, .inr (.inl hall)⟩
    · exact .inr ⟨rfl, .inr (.inr hmany)⟩
    · exact .inl (htiled.covers dirtyWords)

theorem dirtyTilesToRects_covers_clipped :
    dirtyTilesToRects ⟨5, 3, 2, 3, 2, 1⟩ [0x23] = [⟨0, 0, 4, 2⟩, ⟨4, 2, 1, 1⟩] ∧
      Covers ⟨5, 3, 2, 3, 2, 1⟩ [0x23] (dirtyTilesToRects ⟨5, 3, 2, 3, 2, 1⟩ [0x23]) := by
  have hrects : dirtyTilesToRects ⟨5, 3, 2, 3, 2, 1⟩ [0x23] = [⟨0, 0, 4, 2⟩, ⟨4, 2, 1, 1⟩] := by
    decide +kernel
  have hcovers := dirtyTilesToRects_covers 5 3 2 ⟨5, 3, 2, 3, 2, 1⟩ rfl [0x23]
  exact ⟨hrects, hcovers.resolve_right fun hfull => absurd (hrects.symm.trans hfull.1) (by decide)⟩

end Aero.Shared
