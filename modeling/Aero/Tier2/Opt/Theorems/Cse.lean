import Aero.Tier2.Opt.Passes.Cse
import Aero.Tier2.Opt.Theorems.ConstFold

namespace Aero.Tier2.Cse

open Tier2.Core ExprKey

variable {β : Type} {bus : Tier1Bus β} {d d' : Finset ValueId} {f g : Facts} {c c' e e' : Core β}

def ExprKey.eval (c : Core β) : ExprKey → U64
  | const value => value
  | bin op lhs rhs => (evalBinop op (c.evalOperand lhs) (c.evalOperand rhs)).1
  | addr base index scale disp => evalAddr (c.evalOperand base) (c.evalOperand index) scale disp

def ExprKey.InScope (d : Finset ValueId) : ExprKey → Prop
  | const _ => True
  | bin _ lhs rhs => lhs.InScope d ∧ rhs.InScope d
  | addr base index _ _ => base.InScope d ∧ index.InScope d

theorem ExprKey.InScope.mono {key : ExprKey} (h : key.InScope d) (hd : d ⊆ d') :
    key.InScope d' := by
  cases key
  case const => trivial
  case bin => exact ⟨h.1.mono hd, h.2.mono hd⟩
  case addr => exact ⟨h.1.mono hd, h.2.mono hd⟩

theorem ExprKey.eval_of_inScope {key : ExprKey} (h : key.InScope d)
    (he : ∀ v ∈ d, e.values v = c.values v) : key.eval e = key.eval c := by
  cases key
  case const => rfl
  case bin =>
    rw [eval, eval, evalOperand_of_inScope h.1 he, evalOperand_of_inScope h.2 he]
  case addr =>
    rw [eval, eval, evalOperand_of_inScope h.1 he, evalOperand_of_inScope h.2 he]

structure Facts.Scoped (d d' : Finset ValueId) (f : Facts) : Prop where
  repl : Replaced d d' f.repl
  exprs : f.exprs.All fun key v => v ∈ d' ∧ key.InScope d'
  regState : ∀ reg op, f.regState reg = some op → op.InScope d'

structure Facts.Sound (d : Finset ValueId) (f : Facts) (c c' : Core β) : Prop where
  sameMachine : SameMachine c c'
  agrees : AgreesOn d f.repl c c'
  exprs : f.exprs.All fun key v => c'.values v = key.eval c'
  regState : ∀ reg op, f.regState reg = some op → c'.machine.cpu.gpr reg = c'.evalOperand op

theorem Facts.Sound.frame (hf : f.Scoped d d') (h : f.Sound d c c') (hm : SameMachine e e')
    (he : ∀ v ∈ d, e.values v = c.values v) (he' : ∀ v ∈ d', e'.values v = c'.values v)
    (hr : ∀ reg op, f.regState reg = some op →
      e'.machine.cpu.gpr reg = c'.machine.cpu.gpr reg) :
    f.Sound d e e' where
  sameMachine := hm
  agrees := h.agrees.frame hf.repl he he'
  exprs := h.exprs.mono' hf.exprs fun key v ⟨hd, hk⟩ hv => by
    rw [he' v hd, eval_of_inScope hk he', hv]
  regState reg op ho := by
    rw [hr reg op ho, evalOperand_of_inScope (hf.regState reg op ho) he']
    exact h.regState reg op ho

theorem resolveOperand_inScope (hf : f.Scoped d d') (ho : op.InScope d) :
    (resolveOperand f op).InScope d' :=
  hf.repl.resolve_inScope ho

theorem resolveOperand_eval (hc : f.Sound d c c') (ho : op.InScope d) :
    c'.evalOperand (resolveOperand f op) = c.evalOperand op :=
  (hc.agrees.evalOperand ho).symm

section Step

abbrev Ok (bus : Tier1Bus β) (d d' : Finset ValueId) (f : Facts) (i : Instr)
    (r : Straight.Rewritten Instr Facts) : Prop :=
  RewritesTo bus Facts.Scoped Facts.Sound d d' f i r

variable {i j : Instr}

theorem Facts.Scoped.define (hf : f.Scoped d d') (hi : i.Scoped d) :
    f.Scoped (i.define d) (i.define d') where
  repl := hf.repl.define hi
  exprs := hf.exprs.mono fun _ _ ⟨hv, hk⟩ =>
    ⟨Instr.mem_define_of_mem i hv, hk.mono (Instr.subset_define d' i)⟩
  regState reg op ho := (hf.regState reg op ho).mono (Instr.subset_define d' i)

-- The facts about registers survive every instruction but a store to the register.
theorem Facts.Sound.kept (hf : f.Scoped d d') (hc : f.Sound d c c')
    (hk : KeptFrame d d' f.repl i c c' e e')
    (hr : ∀ reg op, f.regState reg = some op →
      e'.machine.cpu.gpr reg = c'.machine.cpu.gpr reg) : f.Sound (i.define d) e e' :=
  { hc.frame hf hk.sameMachine hk.values hk.values' hr with agrees := hk.agrees }

theorem ok_keep (hi : i.Scoped d) (hf : f.Scoped d d') (hd : j.dst = i.dst)
    (hj : ∀ op ∈ j.operands, op.InScope d')
    (he : ∀ c c', f.Sound d c c' → SameEffect i (exec bus i c) (exec bus j c'))
    (hg : g.Scoped (i.define d) (i.define d'))
    (hs : ∀ c c' e e', f.Sound d c c' → KeptFrame d d' f.repl i c c' e e' →
      exec bus j c' = (e', none) → g.Sound (i.define d) e e') :
    Ok bus d d' f i { out := [j], facts := g } := by
  have hj := scoped_keep hi hf.repl hd hj
  refine ⟨⟨hj, trivial⟩, ?_, fun c c' hc => ?_⟩
  · simp only [List.foldl_cons, Instr.define_congr hd d']
    exact hg
  · rw [Core.execInstrs, Straight.execList_singleton]
    refine (exec_keep hi hf.repl hj hc.agrees (he c c' hc)).with_runs.mono ?_ fun _ _ h => h
    rintro e e' ⟨hk, -, h₂⟩
    exact ⟨rfl, hs c c' e e' hc hk h₂⟩

theorem sameEffect_mapOperands (hi : i.Scoped d) (hc : f.Sound d c c') :
    SameEffect i (exec bus i c) (exec bus (i.mapOperands (resolveOperand f)) c') :=
  exec_mapOperands bus hc.sameMachine fun _ ho => (resolveOperand_eval hc (hi.operand ho)).symm

theorem operands_mapOperands (hi : i.Scoped d) (hf : f.Scoped d d') :
    ∀ op ∈ (i.mapOperands (resolveOperand f)).operands, op.InScope d' := by
  simp only [Instr.operands_mapOperands, List.forall_mem_map]
  exact fun op ho => resolveOperand_inScope hf (hi.operand ho)

-- An instruction that stores no register is kept. Memory operations forget the expressions.
theorem ok_mapOperands (hi : i.Scoped d) (hf : f.Scoped d d')
    (hr : ∀ reg src, i ≠ .storeReg reg src) (b : Bool) (hx : exprs = f.exprs ∨ exprs = .empty) :
    Ok bus d d' f i { out := [i.mapOperands (resolveOperand f)],
                      facts := { f with exprs, changed := b } } := by
  have hf' := hf.define hi
  refine ok_keep hi hf (i.dst_mapOperands _) (operands_mapOperands hi hf)
    (fun c c' hc => sameEffect_mapOperands hi hc) ?_ fun c c' e e' hc hk he => ?_
  · rcases hx with rfl | rfl
    · exact { hf' with }
    · exact { hf' with exprs := .empty _ }
  · have hj : ∀ reg src, i.mapOperands (resolveOperand f) ≠ .storeReg reg src := by
      cases i <;> simp_all [Instr.mapOperands]
    have hs := hc.kept hf hk fun reg _ _ => by
      rw [← exec_gpr bus c' (hj reg), he]
    rcases hx with rfl | rfl
    · exact { hs with }
    · exact { hs with exprs := .empty _ }

def Facts.forgetReg (f : Facts) (reg : Gpr) : Facts :=
  { f with regState := Function.update f.regState reg none }

theorem Facts.forgetReg_regState (h : (f.forgetReg reg).regState reg' = some op) :
    reg' ≠ reg ∧ f.regState reg' = some op := by
  by_cases hr : reg' = reg
  case pos => simp [forgetReg, hr] at h
  case neg => exact ⟨hr, by simpa [forgetReg, hr] using h⟩

theorem update_regState {P : Gpr → Operand → Prop} (ho : P reg op)
    (h : ∀ reg' op', (f.forgetReg reg).regState reg' = some op' → P reg' op') :
    ∀ reg' op', Function.update f.regState reg (some op) reg' = some op' → P reg' op' := by
  intro reg' op' h'
  by_cases hr : reg' = reg
  case pos =>
    subst hr
    simp only [Function.update_self, Option.some.injEq] at h'
    exact h' ▸ ho
  case neg => exact h reg' op' (by simpa [Facts.forgetReg, hr] using h')

theorem ok_storeReg (hi : (Instr.storeReg reg src).Scoped d) (hf : f.Scoped d d') (b : Bool) :
    Ok bus d d' f (.storeReg reg src) {
      out := [.storeReg reg (resolveOperand f src)]
      facts := { f with
        regState := Function.update f.regState reg (some (resolveOperand f src))
        changed := b } } := by
  have hf' := hf.define hi
  have hsrc : (resolveOperand f src).InScope d' :=
    resolveOperand_inScope hf (hi.operand (by simp [Instr.operands]))
  refine ok_keep hi hf rfl (operands_mapOperands hi hf)
    (fun c c' hc => sameEffect_mapOperands hi hc) ?_ fun c c' e e' hc hk he => ?_
  · refine { hf' with regState := update_regState hsrc fun reg' op ho => ?_ }
    exact hf'.regState reg' op (Facts.forgetReg_regState ho).2
  · have hf₀ : (f.forgetReg reg).Scoped d d' := { hf with
      regState := fun reg' op ho => hf.regState reg' op (Facts.forgetReg_regState ho).2 }
    have hc₀ : (f.forgetReg reg).Sound d c c' := { hc with
      regState := fun reg' op ho => hc.regState reg' op (Facts.forgetReg_regState ho).2 }
    have hs := hc₀.kept hf₀ hk fun reg' op ho => by
      cases he
      simp [setGpr, (Facts.forgetReg_regState ho).1]
    refine { hs with regState := update_regState ?_ hs.regState }
    cases he
    rw [setGpr_evalOperand]
    simp [setGpr]

theorem ok_loadReg (hi : (Instr.loadReg dst reg).Scoped d) (hf : f.Scoped d d') :
    Ok bus d d' f (.loadReg dst reg) {
      out := [.loadReg dst reg]
      facts := { f with regState := Function.update f.regState reg (some (.value dst)) } } := by
  have hf' := hf.define hi
  have hd : dst ∈ (Instr.loadReg dst reg).define d' := Instr.mem_define_dst rfl
  refine ok_keep hi hf rfl (operands_mapOperands hi hf)
    (fun c c' hc => sameEffect_mapOperands hi hc) ?_ fun c c' e e' hc hk he => ?_
  · refine { hf' with regState := update_regState (.value hd) fun reg' op ho => ?_ }
    exact hf'.regState reg' op (Facts.forgetReg_regState ho).2
  · have hs := hc.kept hf hk fun reg' _ _ => by cases he; rfl
    refine { hs with regState := update_regState ?_ fun reg' op ho => ?_ }
    · cases he
      simp
    · exact hs.regState reg' op (Facts.forgetReg_regState ho).2

theorem ok_replace (hi : i.Scoped d) (hf : f.Scoped d d') (hd : i.dst = some dst)
    (hr : r.InScope d') (he : ∀ c c' : Core β, f.Sound d c c' →
      exec bus i c = (c.setValue dst (c'.evalOperand r), none)) (b : Bool) :
    Ok bus d d' f i
      { out := [], facts := { f with repl := f.repl.insert dst r, changed := b } } := by
  refine ⟨trivial, { hf with repl := hf.repl.replace hi hd hr }, fun c c' hc => ?_⟩
  have hne : ∀ v ∈ d, v ≠ dst := fun v hv h => hi.2 dst hd (h ▸ hv)
  rw [he c c' hc]
  have hs : f.Sound d (c.setValue dst (c'.evalOperand r)) c' :=
    hc.frame hf hc.sameMachine (fun v hv => by simp [hne v hv]) (fun _ _ => rfl) fun _ _ _ => rfl
  exact .running ⟨rfl, { hs with agrees := .replace hf.repl hi hd hr hs.agrees (by simp) }⟩

theorem ok_shareExpr (hi : i.Scoped d) (hf : f.Scoped d d') (hd : i.dst = some dst)
    (hk : key.InScope d') (hd' : j.dst = some dst) (hj : ∀ op ∈ j.operands, op.InScope d')
    (he : ∀ c c' : Core β, f.Sound d c c' →
      exec bus i c = (c.setValue dst (key.eval c'), none))
    (he' : ∀ c' : Core β, exec bus j c' = (c'.setValue dst (key.eval c'), none)) :
    Ok bus d d' f i (shareExpr f key dst i j) := by
  unfold shareExpr
  split
  case h_1 existing hx =>
    refine ok_replace hi hf hd (.value (hf.exprs _ _ hx).1) (fun c c' hc => ?_) _
    rw [he c c' hc, evalOperand_value, hc.exprs _ _ hx]
  case h_2 hx =>
    have hf' := hf.define hi
    have hmem : dst ∈ i.define d' := Instr.mem_define_dst hd
    refine ok_keep hi hf (hd'.trans hd.symm) hj (fun c c' hc => ?_) ?_
      fun c c' e e' hc hkf hx' => ?_
    · rw [he c c' hc, he' c']
      refine .running ⟨hc.sameMachine, fun v hv => ?_⟩
      cases hd.symm.trans hv
      simp
    · exact { hf' with
        exprs := hf'.exprs.insert ⟨hmem, hk.mono (Instr.subset_define d' i)⟩ }
    · have hr : e'.machine = c'.machine := by rw [he' c'] at hx'; cases hx'; rfl
      have hs := hc.kept hf hkf fun _ _ _ => by rw [hr]
      refine { hs with exprs := hs.exprs.insert ?_ }
      rw [eval_of_inScope hk hkf.values']
      rw [he' c'] at hx'
      cases hx'
      simp

theorem orderOperands_inScope (op : BinOp) (hl : lhs.InScope d) (hr : rhs.InScope d) :
    (orderOperands op lhs rhs).1.InScope d ∧ (orderOperands op lhs rhs).2.InScope d := by
  unfold orderOperands
  split
  · exact ⟨hr, hl⟩
  · exact ⟨hl, hr⟩

theorem orderOperands_eval (op : BinOp) (lhs rhs : Operand) :
    evalBinop op (c.evalOperand (orderOperands op lhs rhs).1)
      (c.evalOperand (orderOperands op lhs rhs).2) =
    evalBinop op (c.evalOperand lhs) (c.evalOperand rhs) := by
  unfold orderOperands
  split
  case isTrue h => exact evalBinop_comm (Bool.and_eq_true _ _ ▸ h).1 _ _
  case isFalse => rfl

theorem processInst_ok_binOp (hi : (Instr.binOp dst op lhs rhs flags).Scoped d) (hf : f.Scoped d d') :
    Ok bus d d' f (.binOp dst op lhs rhs flags) (processInst f (.binOp dst op lhs rhs flags)) := by
  obtain ⟨hl, hr⟩ := hi.binOp
  have hin := orderOperands_inScope op (resolveOperand_inScope hf hl) (resolveOperand_inScope hf hr)
  have hv : ∀ c : Core β, evalBinop op
        (c.evalOperand (orderOperands op (resolveOperand f lhs) (resolveOperand f rhs)).1)
        (c.evalOperand (orderOperands op (resolveOperand f lhs) (resolveOperand f rhs)).2) =
      evalBinop op (c.evalOperand (resolveOperand f lhs)) (c.evalOperand (resolveOperand f rhs)) :=
    fun c => orderOperands_eval op _ _
  have hex : ∀ c' : Core β, exec bus
      (.binOp dst op (orderOperands op (resolveOperand f lhs) (resolveOperand f rhs)).1
        (orderOperands op (resolveOperand f lhs) (resolveOperand f rhs)).2 flags) c' =
      exec bus ((Instr.binOp dst op lhs rhs flags).mapOperands (resolveOperand f)) c' :=
    fun c' => by simp only [exec, Instr.mapOperands, hv]
  simp only [processInst]
  split
  case isTrue hfl =>
    refine ok_keep hi hf rfl (by simpa [Instr.operands] using hin) (fun c c' hc => ?_)
      { hf.define hi with } fun c c' e e' hc hk he => ?_
    · rw [hex]
      exact sameEffect_mapOperands hi hc
    · refine { hc.kept hf hk fun reg _ _ => ?_ with }
      rw [← exec_gpr bus c' (i := .binOp dst op _ _ flags) (by simp), he]
  case isFalse hfl =>
    cases FlagSet.eq_empty_of_isEmpty (by simpa using hfl)
    refine ok_shareExpr hi hf rfl hin rfl (by simpa [Instr.operands] using hin)
      (fun c c' hc => ?_) fun c' => by simp [exec, eval]
    rw [eval, hv c', resolveOperand_eval hc hl, resolveOperand_eval hc hr]
    simp [exec]

theorem processInst_ok (hi : i.Scoped d) (hf : f.Scoped d d') :
    Ok bus d d' f i (processInst f i) := by
  cases i
  case nop =>
    refine ⟨trivial, { hf with }, fun c c' hc => .running ⟨rfl, { hc with }⟩⟩
  case sideExit exitRip =>
    refine ⟨⟨by simp [Instr.Scoped, Instr.uses, Instr.operands, Instr.dst], trivial⟩, hf,
      fun c c' hc => ?_⟩
    have : c.machine = c'.machine := hc.sameMachine
    exact .exited (by simp [SameMachine, setRip, this])
  case const dst value =>
    exact ok_shareExpr hi hf rfl trivial rfl (by simp [Instr.operands]) (fun _ _ _ => rfl)
      fun _ => rfl
  case loadReg dst reg =>
    simp only [processInst]
    split
    case h_1 current hr =>
      refine ok_replace hi hf rfl (hf.regState _ _ hr) (fun c c' hc => ?_) _
      have hm := hc.sameMachine
      rw [← hc.regState _ _ hr, ← hm]
      rfl
    case h_2 => exact ok_loadReg hi hf
  case storeReg reg src => exact ok_storeReg hi hf _
  case loadMem | storeMem => exact ok_mapOperands hi hf (by simp) _ (.inr rfl)
  case loadFlag | setFlags | guardCodeVersion => exact ok_mapOperands hi hf (by simp) _ (.inl rfl)
  case guard => exact ok_mapOperands hi hf (by simp) _ (.inl rfl)
  case binOp => exact processInst_ok_binOp hi hf
  case addr dst base index scale disp =>
    obtain ⟨hb, hx⟩ := hi.addr
    refine ok_shareExpr hi hf rfl ⟨resolveOperand_inScope hf hb, resolveOperand_inScope hf hx⟩ rfl
      (operands_mapOperands hi hf) (fun c c' hc => ?_) fun _ => rfl
    rw [eval, resolveOperand_eval hc hb, resolveOperand_eval hc hx]
    rfl

end Step

theorem processInst_dst (hj : j ∈ (processInst f i).out) (hv : j.dst = some v) :
    i.dst = some v := by
  cases i
  all_goals
    simp only [processInst, shareExpr, keep] at hj
    grind [Instr.dst]

theorem scoped_empty : Facts.Scoped ∅ ∅ {} :=
  ⟨.empty, .empty _, by simp⟩

theorem sound_empty (c : Core β) : Facts.Sound ∅ {} c c :=
  ⟨rfl, by simp [AgreesOn], .empty _, by simp⟩

variable (bus) in
theorem simulates : Simulates bus processInst (fun _ => True)
    fun d f c c' => (∃ d', f.Scoped d d') ∧ f.Sound d c c' :=
  simulates_of_rewritesTo (fun _ _ _ _ => processInst_ok) (fun _ _ _ _ h => h.sameMachine)
    fun _ _ _ _ => processInst_dst

theorem keepsScope : KeepsScope processInst (fun _ => True) Facts.Scoped :=
  keepsScope_of_rewritesTo fun _ _ _ _ hi hf =>
    (processInst_ok hi hf : Ok (default : Tier1Bus Unit) _ _ _ _ _)

section Run

variable {t : TraceIr}

theorem enterBody_regState (h : (enterBody t f).regState reg = some op) :
    f.regState reg = some op ∧ (t.kind = .loop → t.bodyRegsWritten reg = false) := by
  unfold enterBody at h
  split at h
  case isTrue =>
    dsimp only at h
    split at h
    case isTrue => cases h
    case isFalse hw => exact ⟨h, fun _ => by simpa using hw⟩
  case isFalse hk => exact ⟨h, fun hl => absurd hl hk⟩

theorem enterBody_repl : (enterBody t f).repl = f.repl := by
  unfold enterBody
  split <;> rfl

theorem enterBody_exprs : (enterBody t f).exprs = f.exprs := by
  unfold enterBody
  split <;> rfl

theorem enterBody_scoped (hf : f.Scoped d d') : (enterBody t f).Scoped d d' where
  repl := by rw [enterBody_repl]; exact hf.repl
  exprs := by rw [enterBody_exprs]; exact hf.exprs
  regState reg op ho := hf.regState reg op (enterBody_regState ho).1

theorem enterBody_sound (hc : f.Sound d c c') : (enterBody t f).Sound d c c' where
  sameMachine := hc.sameMachine
  agrees := by rw [enterBody_repl]; exact hc.agrees
  exprs := by rw [enterBody_exprs]; exact hc.exprs
  regState reg op ho := hc.regState reg op (enterBody_regState ho).1

theorem run_agrees (ht : t.WellScoped) : t.Agrees bus (run t).1 := by
  have hi : ∀ (m : Machine β) hm,
      (∃ d', Facts.Scoped ∅ d' {}) ∧ Facts.Sound ∅ {} (.init m hm) (.init m hm) :=
    fun _ _ => ⟨⟨∅, scoped_empty⟩, sound_empty _⟩
  have he : ∀ d f (c c' : Core β), (∃ d', f.Scoped d d') ∧ f.Sound d c c' →
      (∃ d', (enterBody t f).Scoped d d') ∧ (enterBody t f).Sound d c c' :=
    fun d f c c' ⟨⟨d', hf⟩, hc⟩ => ⟨⟨d', enterBody_scoped hf⟩, enterBody_sound hc⟩
  unfold run
  dsimp only
  split
  case isTrue hs => exact (simulates bus).agrees_of_stop ht (fun _ _ => trivial) hi hs rfl
  case isFalse hs =>
    split
    case isTrue =>
      refine (simulates bus).agrees ht (fun _ _ => trivial) hi rfl rfl (fun hs => by simp [hs])
        (he _ _) ?_
      rintro hl c c' d g e e' ⟨⟨d', hf⟩, hc⟩ _ hb
      refine ⟨⟨d', hf⟩, hc.frame hf hb.sameMachine hb.values
        (fun v hv => hb.values' v (hf.repl.subset hv)) fun reg op ho => ?_⟩
      have hm := hc.sameMachine
      have hm' := hb.sameMachine
      rw [← hm, ← hm']
      exact hb.gpr reg ((enterBody_regState ho).2 hl)
    case isFalse =>
      split
      case isTrue hs =>
        exact (simulates bus).agrees_of_body_stop ht (fun _ _ => trivial) hi (he _ _) hs _
      case isFalse => exact .refl t

theorem run_wellScoped (ht : t.WellScoped) : (run t).1.WellScoped := by
  have ⟨hp, hb⟩ := keepsScope.prologue (fun f _ => f) ht (fun _ _ => trivial) scoped_empty
  unfold run
  dsimp only
  split
  case isTrue hs => exact ⟨hp, trivial⟩
  case isFalse hs =>
    split
    case isTrue =>
      have hb := enterBody_scoped (t := t) (hb (Bool.eq_false_iff.mpr hs))
      exact ⟨hp, keepsScope.body ht (fun _ _ => trivial) hb⟩
    case isFalse => exact ⟨ht.prologue, ht.body⟩

end Run

end Aero.Tier2.Cse
