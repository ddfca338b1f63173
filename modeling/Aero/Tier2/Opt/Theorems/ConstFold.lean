import Aero.Tier2.Opt.Theorems.AddrSimplify
import Aero.Tier2.Opt.Theorems.Replace
import Aero.Tier2.Theorems.Flags

namespace Aero.Tier2

open Tier2.Core

theorem evalBinop_comm (h : op.isCommutative = true) (a b : U64) :
    evalBinop op a b = evalBinop op b a := by
  have hx : ∀ x : U64, a ^^^ b ^^^ x = b ^^^ a ^^^ x := fun x => by rw [BitVec.xor_comm a b]
  have ha : ∀ x y : U64, x &&& y &&& (1#64 <<< 63) = y &&& x &&& (1#64 <<< 63) :=
    fun x y => by rw [BitVec.and_comm x y]
  cases op
  case add =>
    have hc : a.uaddOverflow b = b.uaddOverflow a := by simp [BitVec.uaddOverflow, Nat.add_comm]
    simp only [evalBinop, BitVec.add_comm b a, hc, hx, ha (a ^^^ (a + b))]
  case mul => simp only [evalBinop, BitVec.mul_comm]
  case and => simp only [evalBinop, BitVec.and_comm]
  case or => simp only [evalBinop, BitVec.or_comm]
  case xor => simp only [evalBinop, BitVec.xor_comm]
  case eq => simp only [evalBinop, Bool.beq_comm]
  all_goals cases h

namespace ConstFold

variable {β : Type} {bus : Tier1Bus β} {d d' : Finset ValueId} {f : Facts} {c c' e e' : Core β}

structure Facts.Scoped (d d' : Finset ValueId) (f : Facts) : Prop where
  repl : Replaced d d' f.repl
  consts : f.consts.All fun v _ => v ∈ d'

structure Facts.Sound (d : Finset ValueId) (f : Facts) (c c' : Core β) : Prop where
  sameMachine : SameMachine c c'
  agrees : AgreesOn d f.repl c c'
  consts : f.consts.All fun v k => c'.values v = k

theorem Facts.Sound.frame (hf : f.Scoped d d') (h : f.Sound d c c') (hm : SameMachine e e')
    (he : ∀ v ∈ d, e.values v = c.values v) (he' : ∀ v ∈ d', e'.values v = c'.values v) :
    f.Sound d e e' where
  sameMachine := hm
  agrees := h.agrees.frame hf.repl he he'
  consts := h.consts.mono' hf.consts fun v _ hd hk => (he' v hd).trans hk

theorem resolveOperand_inScope (hf : f.Scoped d d') (ho : op.InScope d) :
    (resolveOperand f op).InScope d' :=
  AddrSimplify.resolveConst_inScope (hf.repl.resolve_inScope ho) _

theorem resolveOperand_eval (hc : f.Sound d c c') (ho : op.InScope d) :
    c'.evalOperand (resolveOperand f op) = c.evalOperand op := by
  rw [resolveOperand, AddrSimplify.resolveConst_eval hc.consts, hc.agrees.evalOperand ho]

theorem algebraicSimplify_cases (h : algebraicSimplify op lhs rhs = some r) :
    (r = lhs ∨ r = rhs ∨ ∃ k, r = .const k) ∧
    ∀ c : Core β, c.evalOperand r = (evalBinop op (c.evalOperand lhs) (c.evalOperand rhs)).1 := by
  cases op
  case mul | and =>
    simp only [algebraicSimplify] at h
    split_ifs at h with h₁ h₂ h₃
    · cases h
      rcases h₁ with rfl | rfl <;> simp [evalBinop]
    all_goals cases h; simp_all [evalBinop]
  all_goals
    simp only [algebraicSimplify] at h
    split_ifs at h
    all_goals cases h; simp_all [evalBinop, boolToU64, BitVec.ult]

theorem algebraicSimplify_inScope (h : algebraicSimplify op lhs rhs = some r) (hl : lhs.InScope d)
    (hr : rhs.InScope d) : r.InScope d := by
  rcases (algebraicSimplify_cases (β := Unit) h).1 with rfl | rfl | ⟨k, rfl⟩
  · exact hl
  · exact hr
  · exact .const k

theorem constRight_inScope (op : BinOp) (hl : lhs.InScope d) (hr : rhs.InScope d) :
    (constRight op lhs rhs).1.InScope d ∧ (constRight op lhs rhs).2.InScope d := by
  unfold constRight
  split
  · split
    · exact ⟨hr, hl⟩
    · exact ⟨hl, hr⟩
  · exact ⟨hl, hr⟩

theorem constRight_eval (op : BinOp) (lhs rhs : Operand) :
    evalBinop op (c.evalOperand (constRight op lhs rhs).1)
      (c.evalOperand (constRight op lhs rhs).2) =
    evalBinop op (c.evalOperand lhs) (c.evalOperand rhs) := by
  unfold constRight
  split
  case isTrue h =>
    split
    · exact evalBinop_comm h _ _
    · rfl
  case isFalse => rfl

section Step

open Straight (Related)

abbrev Ok (bus : Tier1Bus β) (d d' : Finset ValueId) (f : Facts) (i : Instr)
    (r : Straight.Rewritten Instr Facts) : Prop :=
  RewritesTo bus Facts.Scoped Facts.Sound d d' f i r

variable {i j : Instr}

theorem Facts.Scoped.define (hf : f.Scoped d d') (hi : i.Scoped d) :
    f.Scoped (i.define d) (i.define d') :=
  ⟨hf.repl.define hi, hf.consts.mono fun _ _ h => Instr.mem_define_of_mem i h⟩

theorem ok_keep (hi : i.Scoped d) (hf : f.Scoped d d') (hd : j.dst = i.dst)
    (hj : ∀ op ∈ j.operands, op.InScope d')
    (he : ∀ c c', f.Sound d c c' → SameEffect i (exec bus i c) (exec bus j c'))
    (b : Bool) : Ok bus d d' f i { out := [j], facts := { f with changed := b } } := by
  have hj := scoped_keep hi hf.repl hd hj
  have hdef := Instr.define_congr hd d'
  refine ⟨⟨hj, trivial⟩, ?_, fun c c' hc => ?_⟩
  · have := hf.define hi
    simp only [List.foldl_cons, hdef]
    exact ⟨this.repl, this.consts⟩
  · rw [Core.execInstrs, Straight.execList_singleton]
    refine (exec_keep hi hf.repl hj hc.agrees (he c c' hc)).mono ?_ fun _ _ h => h
    intro e e' h
    exact ⟨rfl, h.sameMachine, h.agrees, (hc.frame hf h.sameMachine h.values h.values').consts⟩

theorem ok_mapOperands (hi : i.Scoped d) (hf : f.Scoped d d') (b : Bool) :
    Ok bus d d' f i
      { out := [i.mapOperands (resolveOperand f)], facts := { f with changed := b } } := by
  refine ok_keep hi hf (i.dst_mapOperands _) ?_ (fun c c' hc => ?_) b
  · simp only [Instr.operands_mapOperands, List.forall_mem_map]
    exact fun op ho => resolveOperand_inScope hf (hi.operand ho)
  · exact exec_mapOperands bus hc.sameMachine fun op ho =>
      (resolveOperand_eval hc (hi.operand ho)).symm

theorem ok_drop (hf : f.Scoped d d') (hd : i.dst = none)
    (he : ∀ c c' : Core β, f.Sound d c c' → exec bus i c = (c, none)) (b : Bool) :
    Ok bus d d' f i { out := [], facts := { f with changed := b } } := by
  have hdef := Instr.define_of_none hd
  refine ⟨trivial, ?_, fun c c' hc => ?_⟩
  · rw [hdef]
    exact ⟨hf.repl, hf.consts⟩
  · rw [he c c' hc, hdef]
    exact .running ⟨rfl, hc.sameMachine, hc.agrees, hc.consts⟩

theorem ok_const (hi : i.Scoped d) (hf : f.Scoped d d') (hd : i.dst = some dst) (flags : FlagSet)
    (v : FlagValues) (he : ∀ c c' : Core β, f.Sound d c c' →
      exec bus i c = ((c.setValue dst k).updateFlags flags v, none)) (b : Bool) :
    Ok bus d d' f i {
      out := .const dst k :: if flags.isEmpty then [] else [.setFlags flags v]
      facts := { f with consts := f.consts.insert dst k, changed := b } } := by
  have hnd : dst ∉ d' := fun h => hi.2 dst hd (hf.repl.subset h)
  have hsc : scopeAfter d' (.const dst k :: if flags.isEmpty then [] else [.setFlags flags v]) =
      i.define d' := by
    rw [Instr.define_of_some hd]
    split <;> rfl
  have hex : ∀ c' : Core β,
      Core.execInstrs bus (.const dst k :: if flags.isEmpty then [] else [.setFlags flags v]) c' =
        ((c'.setValue dst k).updateFlags flags v, none) := fun c' => by
    unfold updateFlags
    split <;> rfl
  refine ⟨?_, ?_, fun c c' hc => ?_⟩
  · refine ⟨⟨by simp [Instr.uses, Instr.operands], fun _ h => ?_⟩, ?_⟩
    · cases h; exact hnd
    · split
      · trivial
      · simp [Instr.Scoped, Instr.uses, Instr.operands, Instr.dst]
  · rw [hsc]
    exact ⟨hf.repl.define hi, (hf.define hi).consts.insert (Instr.mem_define_dst hd)⟩
  · have hne : ∀ v ∈ d, v ≠ dst := fun v hv h => hi.2 dst hd (h ▸ hv)
    have hne' : ∀ v ∈ d', v ≠ dst := fun v hv => hne v (hf.repl.subset hv)
    rw [he c c' hc, hex]
    have hm : SameMachine ((c.setValue dst k).updateFlags flags v)
        ((c'.setValue dst k).updateFlags flags v) := by
      have : c.machine = c'.machine := hc.sameMachine
      unfold updateFlags
      split <;> simp [SameMachine, applyFlags, this]
    have hs := hc.frame hf hm (fun v hv => by simp [hne v hv]) fun v hv => by simp [hne' v hv]
    refine .running ⟨rfl, hm, .define hf.repl hi hs.agrees fun v hv => ?_, hs.consts.insert ?_⟩
    · cases hd.symm.trans hv
      simp
    · simp

theorem ok_replace (hi : i.Scoped d) (hf : f.Scoped d d') (hd : i.dst = some dst)
    (hr : r.InScope d') (he : ∀ c c' : Core β, f.Sound d c c' →
      exec bus i c = (c.setValue dst (c'.evalOperand r), none)) (b : Bool) :
    Ok bus d d' f i
      { out := [], facts := { f with repl := f.repl.insert dst r, changed := b } } := by
  refine ⟨trivial, ⟨hf.repl.replace hi hd hr, hf.consts⟩, fun c c' hc => ?_⟩
  have hne : ∀ v ∈ d, v ≠ dst := fun v hv h => hi.2 dst hd (h ▸ hv)
  rw [he c c' hc]
  have hs : f.Sound d (c.setValue dst (c'.evalOperand r)) c' :=
    hc.frame hf hc.sameMachine (fun v hv => by simp [hne v hv]) fun _ _ => rfl
  exact .running ⟨rfl, hs.sameMachine, .replace hf.repl hi hd hr hs.agrees (by simp), hs.consts⟩

theorem ok_exit (hf : f.Scoped d d') (hd : i.dst = none) (he : ∀ c c' : Core β, f.Sound d c c' →
      exec bus i c = (c.setRip exitRip, some (.sideExit exitRip))) (b : Bool) :
    Ok bus d d' f i
      { out := [.sideExit exitRip], facts := { f with changed := b }, stop := true } := by
  refine ⟨⟨by simp [Instr.Scoped, Instr.uses, Instr.operands, Instr.dst], trivial⟩, ?_,
    fun c c' hc => ?_⟩
  · rw [Instr.define_of_none hd]
    exact ⟨hf.repl, hf.consts⟩
  · have : c.machine = c'.machine := hc.sameMachine
    rw [he c c' hc, Core.execInstrs]
    exact .exited (by simp [SameMachine, setRip, this])

theorem foldInst_ok_binOp (hi : (Instr.binOp dst op lhs rhs flags).Scoped d) (hf : f.Scoped d d') :
    Ok bus d d' f (.binOp dst op lhs rhs flags) (foldInst f (.binOp dst op lhs rhs flags)) := by
  obtain ⟨hl, hr⟩ := hi.binOp
  have hin := constRight_inScope op (resolveOperand_inScope hf hl) (resolveOperand_inScope hf hr)
  have hv : ∀ c c' : Core β, f.Sound d c c' →
      evalBinop op (c'.evalOperand (constRight op (resolveOperand f lhs) (resolveOperand f rhs)).1)
        (c'.evalOperand (constRight op (resolveOperand f lhs) (resolveOperand f rhs)).2) =
      evalBinop op (c.evalOperand lhs) (c.evalOperand rhs) := fun c c' hc => by
    rw [constRight_eval, resolveOperand_eval hc hl, resolveOperand_eval hc hr]
  simp only [foldInst]
  generalize constRight op (resolveOperand f lhs) (resolveOperand f rhs) = o at hin hv
  obtain ⟨lhs', rhs'⟩ := o
  split
  case h_1 r hr =>
    split at hr
    case isFalse => cases hr
    case isTrue hfl =>
      cases FlagSet.eq_empty_of_isEmpty hfl
      refine ok_replace hi hf rfl (algebraicSimplify_inScope hr hin.1 hin.2) (fun c c' hc => ?_) _
      rw [(algebraicSimplify_cases hr).2 c', hv c c' hc]
      simp [exec]
  case h_2 =>
    dsimp only at hin hv ⊢
    split
    case h_1 a b =>
      refine ok_const hi hf rfl flags _ (fun c c' hc => ?_) _
      have := hv c c' hc
      simp [exec, ← this]
    case h_2 =>
      refine ok_keep (j := .binOp dst op lhs' rhs' flags) hi hf rfl
        (by simp [Instr.operands, hin]) (fun c c' hc => ?_) _
      have : exec bus (.binOp dst op lhs' rhs' flags) c' =
          exec bus ((Instr.binOp dst op lhs rhs flags).mapOperands (resolveOperand f)) c' := by
        simp only [exec, Instr.mapOperands, hv c c' hc, resolveOperand_eval hc hl,
          resolveOperand_eval hc hr]
      rw [this]
      exact exec_mapOperands bus hc.sameMachine fun op ho =>
        (resolveOperand_eval hc (hi.operand ho)).symm

theorem foldInst_ok (hi : i.Scoped d) (hf : f.Scoped d d') :
    Ok bus d d' f i (foldInst f i) := by
  cases i
  case nop => exact ok_drop hf rfl (fun _ _ _ => rfl) _
  case const dst value => exact ok_const hi hf rfl .empty default (fun _ _ _ => rfl) _
  case loadReg | loadFlag | guardCodeVersion => exact ok_mapOperands hi hf _
  case loadMem | storeReg | storeMem => exact ok_mapOperands hi hf _
  case binOp => exact foldInst_ok_binOp hi hf
  case sideExit exitRip => exact ok_exit hf rfl (fun _ _ _ => rfl) _
  case setFlags mask values =>
    simp only [foldInst]
    split
    case isTrue h =>
      exact ok_drop hf rfl (fun c _ _ => by simp [exec, c.applyFlags_of_isEmpty h]) _
    case isFalse => exact ok_mapOperands hi hf _
  case addr dst base index scale disp =>
    obtain ⟨hb, hx⟩ := hi.addr
    simp only [foldInst]
    split
    case h_1 b x hb' hx' =>
      refine ok_const hi hf rfl .empty default (fun c c' hc => ?_) _
      simp [exec, ← resolveOperand_eval hc hb, ← resolveOperand_eval hc hx, hb', hx']
    case h_2 => exact ok_mapOperands hi hf _
  case guard cond expected exitRip =>
    have hcond : cond.InScope d := hi.operand (by simp [Instr.operands])
    simp only [foldInst]
    split
    case h_1 k hk =>
      have hv : ∀ c c' : Core β, f.Sound d c c' → c.evalOperand cond = k := fun c c' hc => by
        rw [← resolveOperand_eval hc hcond, hk, evalOperand_const]
      split
      case isTrue h =>
        refine ok_drop hf rfl (fun c c' hc => ?_) _
        simp only [exec, hv c c' hc, beq_iff_eq.mp h]
        simp
      case isFalse h =>
        refine ok_exit hf rfl (fun c c' hc => ?_) _
        simp only [exec, hv c c' hc]
        simpa [bne] using h
    case h_2 => exact ok_mapOperands hi hf _

end Step

theorem foldInst_dst (hj : j ∈ (foldInst f i).out) (hv : j.dst = some v) : i.dst = some v := by
  cases i
  case binOp dst op lhs rhs flags =>
    simp only [foldInst] at hj
    grind [Instr.dst]
  all_goals grind [foldInst, Instr.dst]

theorem scoped_empty : Facts.Scoped ∅ ∅ {} :=
  ⟨.empty, .empty _⟩

variable (bus) in
theorem simulates : Simulates bus foldInst (fun _ => True)
    fun d f c c' => (∃ d', f.Scoped d d') ∧ f.Sound d c c' :=
  simulates_of_rewritesTo (fun _ _ _ _ => foldInst_ok) (fun _ _ _ _ h => h.sameMachine)
    fun _ _ _ _ => foldInst_dst

theorem keepsScope : KeepsScope foldInst (fun _ => True) Facts.Scoped :=
  keepsScope_of_rewritesTo fun _ _ _ _ hi hf =>
    (foldInst_ok hi hf : Ok (default : Tier1Bus Unit) _ _ _ _ _)

theorem sound_empty (c : Core β) : Facts.Sound ∅ {} c c :=
  ⟨rfl, by simp [AgreesOn], .empty _⟩

theorem run_agrees {t : TraceIr} (ht : t.WellScoped) : t.Agrees bus (run t).1 := by
  have hi : ∀ (m : Machine β) hm,
      (∃ d', Facts.Scoped ∅ d' {}) ∧ Facts.Sound ∅ {} (.init m hm) (.init m hm) :=
    fun _ _ => ⟨⟨∅, scoped_empty⟩, sound_empty _⟩
  unfold run
  dsimp only
  split
  case isTrue hs => exact (simulates bus).agrees_of_stop ht (fun _ _ => trivial) hi hs rfl
  case isFalse hs =>
    split
    case isTrue =>
      refine (simulates bus).agrees ht (fun _ _ => trivial) hi rfl rfl (fun _ => rfl)
        (fun _ _ h => h) ?_
      rintro _ c c' d g e e' ⟨⟨d', hf⟩, hc⟩ _ hb
      exact ⟨⟨d', hf⟩, hc.frame hf hb.sameMachine hb.values fun v hv =>
        hb.values' v (hf.repl.subset hv)⟩
    case isFalse => exact .refl t

theorem run_wellScoped (ht : t.WellScoped) : (run t).1.WellScoped := by
  have ⟨hp, hb⟩ := keepsScope.prologue cut ht (fun _ _ => trivial) scoped_empty
  unfold run
  dsimp only
  split
  case isTrue hs => exact ⟨hp, trivial⟩
  case isFalse hs =>
    split
    case isTrue =>
      exact ⟨hp, keepsScope.body ht (fun _ _ => trivial) (hb (Bool.eq_false_iff.mpr hs))⟩
    case isFalse => exact ht

end ConstFold

end Aero.Tier2
