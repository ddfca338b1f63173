import Aero.Mmu.Tables

namespace Aero.Mmu

open WalkM PageWalk Bool BitVec Mark ByteMemory

variable {mmu : Mmu} {ctx : EntryAccessContext} {addr e : U64}
variable {α β δ : Type}

theorem run_bind_ok {x : WalkM α} {k : α → WalkM β} (h : x.run mem = (.ok a, mem')) :
    (x >>= k).run mem = (k a).run mem' := by
  change (match x.run mem with | (r, m) => (ExceptT.bindCont k r : StateM PhysMem _) m) = _
  rw [h]
  rfl

theorem run_bind_error {x : WalkM α} {k : α → WalkM β} (h : x.run mem = (.error pf, mem')) :
    (x >>= k).run mem = (.error pf, mem') := by
  change (match x.run mem with | (r, m) => (ExceptT.bindCont k r : StateM PhysMem _) m) = _
  rw [h]
  rfl

theorem run_readU32 : (readU32 addr).run mem = (.ok (entries32.read mem addr), mem) := rfl

theorem run_readU64 : (readU64 addr).run mem = (.ok (entries64.read mem addr), mem) := rfl

section Bits

variable {x : U64}

theorem or_twoPow_of_and_ne_zero (h : x &&& twoPow 64 i ≠ 0) :
    x ||| twoPow 64 i = x := by
  rw [and_twoPow] at h
  have hi : x.getLsbD i := by
    by_contra hn
    simp [hn] at h
  ext j hj
  by_cases hij : j = i
  case pos =>
    subst hij
    simp [hi]
  case neg => simp [hij]

theorem Mark.bit_eq (f : Mark) : ∃ i, f.bit = twoPow 64 i := by
  cases f
  case accessed => exact ⟨5, by decide⟩
  case dirty => exact ⟨6, by decide⟩

theorem Mark.or_bit_of_and {f : Mark} (h : (x &&& f.bit == 0) = false) : x ||| f.bit = x := by
  have ⟨i, hi⟩ := f.bit_eq
  rw [hi] at h ⊢
  exact or_twoPow_of_and_ne_zero (by simpa using h)

end Bits

section Entry

theorem write_read32 (mem : PhysMem) (a : U64) : mem.write 4 a (mem.read 32 4 a) = mem :=
  write_read_self rfl mem a

theorem write_read64 (mem : PhysMem) (a : U64) : mem.write 8 a (mem.read 64 8 a) = mem :=
  write_read_self rfl mem a

theorem mark64_of_and (h : (entries64.read mem addr &&& f.bit == 0) = false) :
    entries64.mark f mem addr = mem := by
  change mem.write 8 addr (entries64.read mem addr ||| f.bit) = mem
  rw [or_bit_of_and h]
  exact write_read64 mem addr

theorem setWidth_or_bit (x : U32) (f : Mark) :
    (x ||| f.bit.setWidth 32).setWidth 64 = x.setWidth 64 ||| f.bit := by
  cases f <;> rfl

theorem setWidth32_or_bit (x : U32) (f : Mark) :
    (x.setWidth 64 ||| f.bit).setWidth 32 = x ||| f.bit.setWidth 32 := by
  simp

theorem mark32_of_and (h : (entries32.read mem addr &&& f.bit == 0) = false) :
    entries32.mark f mem addr = mem := by
  have h := or_bit_of_and h
  change mem.write 4 addr (mem.read 32 4 addr ||| f.bit.setWidth 32) = mem
  rw [← setWidth32_or_bit]
  change mem.write 4 addr ((entries32.read mem addr ||| f.bit).setWidth 32) = mem
  rw [h]
  change mem.write 4 addr (((mem.read 32 4 addr).setWidth 64).setWidth 32) = mem
  simp [write_read32]

theorem write32_marked (f : Mark) :
    mem.write 4 addr ((entries32.read mem addr ||| f.bit).setWidth 32) =
      entries32.mark f mem addr := by
  change _ = mem.write 4 addr (mem.read 32 4 addr ||| f.bit.setWidth 32)
  rw [← setWidth32_or_bit]
  rfl

end Entry

structure Ends (ctx : EntryAccessContext) (P : Except PageFault α × PhysMem → δ)
    (fin : TableOutcome × PhysMem → δ) : Prop where
  absent : ∀ m, P (.error (pageFaultNotPresent ctx.vaddr ctx.access ctx.isUser), m) =
    fin (.absent, m)
  invalid : ∀ m, P (.error (pageFaultRsvd ctx.vaddr ctx.access ctx.isUser), m) = fin (.invalid, m)

def rest (entries : PageWalk.Memory PhysMem U64 U64 Mark) (ctx : EntryAccessContext)
    (l : TableLevel) (ls : List TableLevel) (a e : U64) (r : Rights) (m : PhysMem) :
    TableOutcome × PhysMem :=
  match l.leaf e with
  | some i => (.leaf a (l.gather r e) i, m)
  | none   => entries.walkMark .accessed ctx.vaddr ls (l.next e) (l.gather r e) m

section Step

variable {P : Except PageFault α × PhysMem → δ}

theorem check64_absent (h : mmu.check64 kind e = .absent) : (e &&& pteP == 0) = true := by
  rw [check64] at h
  cases hp : (e &&& pteP == 0)
  case true => rfl
  case false =>
    cases hr : mmu.hasReservedBits64 e kind <;>
      simp only [hp, hr, if_false, if_true, reduceCtorEq] at h

theorem check64_invalid (h : mmu.check64 kind e = .invalid) :
    (e &&& pteP == 0) = false ∧ mmu.hasReservedBits64 e kind = true := by
  rw [check64] at h
  cases hp : (e &&& pteP == 0)
  case true => simp only [hp, if_true, reduceCtorEq] at h
  case false =>
    cases hr : mmu.hasReservedBits64 e kind
    case true => exact ⟨rfl, rfl⟩
    case false => simp only [hp, hr, if_false, reduceCtorEq] at h

theorem check64_good (h : mmu.check64 kind e = .good) :
    (e &&& pteP == 0) = false ∧ mmu.hasReservedBits64 e kind = false := by
  rw [check64] at h
  cases hp : (e &&& pteP == 0)
  case true => simp only [hp, if_true, reduceCtorEq] at h
  case false =>
    cases hr : mmu.hasReservedBits64 e kind
    case true => simp only [hp, hr, if_false, if_true, reduceCtorEq] at h
    case false => exact ⟨rfl, rfl⟩

theorem run_checkEntry64_good (hk : kind ≠ .pdptePae) (he : entries64.read mem addr = e)
    (h : mmu.check64 kind e = .good) :
    (mmu.checkEntry64 addr e ctx kind).run mem =
      (.ok (some (entries64.marked .accessed e)), entries64.mark .accessed mem addr) := by
  have ⟨hp, hr⟩ := check64_good h
  have hk' : (kind != .pdptePae) = true := by simpa using hk
  cases ha : (e &&& pteA == 0)
  case true =>
    simp only [checkEntry64, hp, hr, ha, hk', Bool.and_self]
    subst he
    rfl
  case false =>
    simp only [checkEntry64, hp, hr, ha, Bool.and_false]
    rw [mark64_of_and (he.symm ▸ ha)]
    change (Except.ok (some e), mem) = (Except.ok (some (e ||| accessed.bit)), mem)
    rw [or_bit_of_and ha]

theorem run_entry64_good (hk : kind ≠ .pdptePae)
    (h : mmu.check64 kind (entries64.read mem addr) = .good) :
    (mmu.entry64 addr ctx kind).run mem =
      (.ok (entries64.marked .accessed (entries64.read mem addr)),
        entries64.mark .accessed mem addr) := by
  rw [entry64, run_bind_ok run_readU64, run_bind_ok (run_checkEntry64_good hk rfl h)]
  rfl

theorem run_entry64_absent (h : mmu.check64 kind (entries64.read mem addr) = .absent) :
    (mmu.entry64 addr ctx kind).run mem =
      (.error (pageFaultNotPresent ctx.vaddr ctx.access ctx.isUser), mem) := by
  rw [entry64, run_bind_ok run_readU64, checkEntry64, if_pos (check64_absent h)]
  rfl

theorem run_entry64_invalid (h : mmu.check64 kind (entries64.read mem addr) = .invalid) :
    (mmu.entry64 addr ctx kind).run mem =
      (.error (pageFaultRsvd ctx.vaddr ctx.access ctx.isUser), mem) := by
  have ⟨hp, hr⟩ := check64_invalid h
  rw [entry64, run_bind_ok run_readU64, checkEntry64, if_neg (eq_false_iff.mp hp), if_pos hr]
  rfl

-- The pointer table of the PAE mode is only read.
theorem run_entry64_pdptePae (h : mmu.check64 .pdptePae (entries64.read mem addr) = .good) :
    (mmu.entry64 addr ctx .pdptePae).run mem = (.ok (entries64.read mem addr), mem) := by
  have ⟨hp, hr⟩ := check64_good h
  rw [entry64, run_bind_ok run_readU64, checkEntry64, if_neg (eq_false_iff.mp hp), if_neg (eq_false_iff.mp hr)]
  rfl

theorem read_mark64 (f : Mark) (mem : PhysMem) (a : U64) :
    entries64.read (entries64.mark f mem a) a = entries64.marked f (entries64.read mem a) :=
  read_write_self (by decide) (by decide) mem a _

theorem marked_present (h : (e &&& pteP == 0) = false) : entries64.marked f e &&& pteP != 0 := by
  have hb : f.bit &&& pteP = 0 := by cases f <;> decide
  change (e ||| f.bit) &&& pteP != 0
  rw [BitVec.and_or_distrib_right, hb]
  simpa using h

theorem walk_step64 (he : Ends ctx P fin) (hk : kind ≠ .pdptePae)
    (hrest : ∀ m e, entries64.read m (entryAddr base ctx.vaddr shift 0x1ff 8) = e →
      e &&& pteP != 0 → P ((k e).run m) = fin (rest entries64 ctx (mmu.level64 kind shift lf) ls
        (entryAddr base ctx.vaddr shift 0x1ff 8) e r m)) :
    P ((mmu.entry64 (entryAddr base ctx.vaddr shift 0x1ff 8) ctx kind >>= k).run mem) =
      fin (entries64.walkMark .accessed ctx.vaddr (mmu.level64 kind shift lf :: ls) base r mem) := by
  have hslot : (mmu.level64 kind shift lf).slot base ctx.vaddr =
      entryAddr base ctx.vaddr shift 0x1ff 8 := rfl
  have hcheck : (mmu.level64 kind shift lf).check = mmu.check64 kind := rfl
  have hmarks : (mmu.level64 kind shift lf).marks = true := rfl
  simp only [Memory.walkMark, hslot, hcheck, hmarks, if_true]
  generalize ha : entryAddr base ctx.vaddr shift 0x1ff 8 = a at hrest
  cases h : mmu.check64 kind (entries64.read mem a)
  case absent => rw [run_bind_error (run_entry64_absent h), he.absent]
  case invalid => rw [run_bind_error (run_entry64_invalid h), he.invalid]
  case good =>
    rw [run_bind_ok (run_entry64_good hk h)]
    rw [hrest _ _ (read_mark64 .accessed mem a) (marked_present (check64_good h).1), rest]
    cases (mmu.level64 kind shift lf).leaf (entries64.marked .accessed (entries64.read mem a)) <;> rfl

theorem walk_stepPae (he : Ends ctx P fin)
    (hrest : ∀ e, P ((k e).run mem) = fin (rest entries64 ctx mmu.pdpteLevelPae ls
      (entryAddr base ctx.vaddr 30 0x3 8) e r mem)) :
    P ((mmu.entry64 (entryAddr base ctx.vaddr 30 0x3 8) ctx .pdptePae >>= k).run mem) =
      fin (entries64.walkMark .accessed ctx.vaddr (mmu.pdpteLevelPae :: ls) base r mem) := by
  have hslot : mmu.pdpteLevelPae.slot base ctx.vaddr = entryAddr base ctx.vaddr 30 0x3 8 := rfl
  have hcheck : mmu.pdpteLevelPae.check = mmu.check64 .pdptePae := rfl
  have hmarks : mmu.pdpteLevelPae.marks = false := rfl
  simp only [Memory.walkMark, hslot, hcheck]
  generalize ha : entryAddr base ctx.vaddr 30 0x3 8 = a at hrest
  cases h : mmu.check64 .pdptePae (entries64.read mem a)
  case absent => rw [run_bind_error (run_entry64_absent h), he.absent]
  case invalid => rw [run_bind_error (run_entry64_invalid h), he.invalid]
  case good =>
    rw [run_bind_ok (run_entry64_pdptePae h)]
    rw [hrest]
    rfl

end Step

theorem walk_leaf {entries : PageWalk.Memory PhysMem U64 U64 Mark} (h : l.leaf e = some i) :
    rest entries ctx l ls a e r mem = (.leaf a (l.gather r e) i, mem) := by
  rw [rest, h]

theorem walk_next {entries : PageWalk.Memory PhysMem U64 U64 Mark} (h : l.leaf e = none) :
    rest entries ctx l ls a e r mem =
      entries.walkMark .accessed ctx.vaddr ls (l.next e) (l.gather r e) mem := by
  rw [rest, h]

structure Ends64 (mmu : Mmu) (cowForceRw : Bool) (ctx : EntryAccessContext)
    (P : Except PageFault (TlbEntry × U64) × PhysMem → δ) (fin : TableOutcome × PhysMem → δ) : Prop
    extends Ends ctx P fin where
  leaf : ∀ {a e frame size r m}, entries64.read m a = e → (mmu.mode = .long4 → size ≠ .size4K) →
    P ((mmu.leaf ctx true a e frame size r).run m) = fin (.leaf a r ⟨size, frame⟩, m)
  page : ∀ {a e above r m}, mmu.mode = .long4 → entries64.read m a = e →
    e &&& pteP != 0 → (r.user → e &&& pteUs != 0) →
    P ((mmu.leafLong4 cowForceRw ctx above a e r).run m) =
      fin (.leaf a r ⟨.size4K, mmu.nextTable e⟩, m)

section Walks

theorem walkLong4_ends (he : Ends64 mmu cowForceRw ctx P fin) (hm : mmu.mode = .long4) :
    P ((mmu.walkLong4 cowForceRw ctx).run mem) =
      fin (entries64.walkMark .accessed ctx.vaddr mmu.longLevels
        ((mmu.cr3 &&& mmu.physAddrMask) &&& ~~~0xfff) .all mem) := by
  apply walk_step64 he.toEnds (by decide)
  intro m₁ pml4e _ _
  apply walk_step64 he.toEnds (by decide)
  intro m₂ pdpte h₂ _
  cases hps : (pdpte &&& ptePs != 0)
  case true =>
    rw [walk_leaf (if_pos hps)]
    exact he.leaf h₂ (fun _ => by decide)
  case false =>
    rw [walk_next (if_neg (eq_false_iff.mp hps))]
    apply walk_step64 he.toEnds (by decide)
    intro m₃ pde h₃ _
    cases hps : (pde &&& ptePs != 0)
    case true =>
      rw [walk_leaf (if_pos hps)]
      exact he.leaf h₃ (fun _ => by decide)
    case false =>
      rw [walk_next (if_neg (eq_false_iff.mp hps))]
      apply walk_step64 he.toEnds (by decide)
      intro m₄ pte h₄ hp
      exact he.page hm h₄ hp (fun hu => (and_eq_true_iff.mp hu).2)

theorem walkPae_ends (he : Ends64 mmu cowForceRw ctx P fin) (hm : mmu.mode = .pae) :
    P ((mmu.walkPae ctx).run mem) =
      fin (entries64.walkMark .accessed ctx.vaddr mmu.paeLevels
        ((mmu.cr3 &&& 0xffff_ffff) &&& ~~~0x1f) .all mem) := by
  apply walk_stepPae he.toEnds
  intro pdpte
  apply walk_step64 he.toEnds (by decide)
  intro m₂ pde h₂ _
  cases hps : (pde &&& ptePs != 0)
  case true =>
    rw [walk_leaf (if_pos hps)]
    exact he.leaf h₂ (fun _ => by decide)
  case false =>
    rw [walk_next (if_neg (eq_false_iff.mp hps))]
    apply walk_step64 he.toEnds (by decide)
    intro m₃ pte h₃ _
    exact he.leaf h₃ (by simp [hm])

theorem marked_and (hk : f.bit &&& k = 0) : entries32.marked f e &&& k = e &&& k := by
  change (e ||| f.bit) &&& k = e &&& k
  rw [BitVec.and_or_distrib_right, hk]
  exact BitVec.or_zero

theorem read_mark32 (f : Mark) (mem : PhysMem) (a : U64) :
    entries32.read (entries32.mark f mem a) a = entries32.marked f (entries32.read mem a) := by
  change ((mem.write 4 a (mem.read 32 4 a ||| f.bit.setWidth 32)).read 32 4 a).setWidth 64 =
    (mem.read 32 4 a).setWidth 64 ||| f.bit
  rw [read_write_self (by decide) (by decide)]
  exact setWidth_or_bit _ f

theorem run_checkEntry32 (he : entries32.read mem addr = e) (hp : (e &&& pteP == 0) = false) :
    (checkEntry32 addr e).run mem =
      (.ok (some (entries32.marked .accessed e)), entries32.mark .accessed mem addr) := by
  subst he
  cases ha : (entries32.read mem addr &&& pteA == 0)
  case true =>
    simp only [checkEntry32, hp, ha]
    rw [← write32_marked]
    rfl
  case false =>
    simp only [checkEntry32, hp, ha, false_eq_true]
    rw [mark32_of_and ha]
    change (Except.ok (some _), mem) = (Except.ok (some (_ ||| accessed.bit)), mem)
    rw [or_bit_of_and ha]

theorem run_checkEntry32_absent (hp : e &&& pteP == 0) :
    (checkEntry32 addr e).run mem = (.ok none, mem) := by
  rw [checkEntry32, if_pos hp]
  rfl

theorem run_pure (a : α) : (pure a : WalkM α).run mem = (.ok a, mem) := rfl

theorem walkPte32_ends (he : Ends ctx P fin)
    (hleaf : ∀ {a e frame size r m}, entries32.read m a = e →
      P ((mmu.leaf ctx false a e frame size r).run m) = fin (.leaf a r ⟨size, frame⟩, m)) :
    P ((readU32 (entryAddr base ctx.vaddr 12 0x3ff 4) >>= fun pteRaw =>
        checkEntry32 (entryAddr base ctx.vaddr 12 0x3ff 4) pteRaw >>= fun pte? =>
        present ctx pte? >>= fun pte =>
        mmu.leaf ctx false (entryAddr base ctx.vaddr 12 0x3ff 4) pte (pte &&& 0xffff_f000) .size4K
          (r.restrict false pte)).run mem) =
      fin (entries32.walkMark .accessed ctx.vaddr [pteLevel32] base r mem) := by
  rw [run_bind_ok run_readU32, Memory.walkMark]
  have hslot : pteLevel32.slot base ctx.vaddr = entryAddr base ctx.vaddr 12 0x3ff 4 := rfl
  have hmarks : pteLevel32.marks = true := rfl
  simp only [hslot, hmarks]
  obtain ⟨a, ha⟩ : ∃ a, entryAddr base ctx.vaddr 12 0x3ff 4 = a := ⟨_, rfl⟩
  rw [ha]
  cases hp : (entries32.read mem a &&& pteP == 0)
  case true =>
    have hc : pteLevel32.check (entries32.read mem a) = .absent := if_pos hp
    rw [run_bind_ok (run_checkEntry32_absent hp), hc, ← he.absent]
    rfl
  case false =>
    have hc : pteLevel32.check (entries32.read mem a) = .good := if_neg (eq_false_iff.mp hp)
    rw [run_bind_ok (run_checkEntry32 rfl hp), hc, present, run_bind_ok (run_pure _),
      hleaf (read_mark32 .accessed mem a)]
    rfl

theorem checkPde32_cases (mmu : Mmu) (ctx : EntryAccessContext) (mem : PhysMem) (e : U64) :
    (mmu.pdeLevel32.check e = .absent ∧ (mmu.checkPde32 ctx e).run mem =
        (.error (pageFaultNotPresent ctx.vaddr ctx.access ctx.isUser), mem)) ∨
      (mmu.pdeLevel32.check e = .invalid ∧ (mmu.checkPde32 ctx e).run mem =
        (.error (pageFaultRsvd ctx.vaddr ctx.access ctx.isUser), mem)) ∨
      (mmu.pdeLevel32.check e = .good ∧ (e &&& pteP == 0) = false ∧
        (mmu.checkPde32 ctx e).run mem = (.ok (), mem)) := by
  simp only [pdeLevel32, checkPde32]
  cases e &&& pteP == 0
  case true => exact .inl ⟨rfl, rfl⟩
  case false =>
    cases e &&& ptePs != 0 && !mmu.cr4PseOn
    case true => exact .inr (.inl ⟨rfl, rfl⟩)
    case false =>
      cases e &&& ptePs != 0 && e &&& legacy32Reserved4MbMask != 0
      case true => exact .inr (.inl ⟨rfl, rfl⟩)
      case false => exact .inr (.inr ⟨rfl, rfl, rfl⟩)

theorem walkLegacy32_ends (he : Ends ctx P fin)
    (hleaf : ∀ {a e frame size r m}, entries32.read m a = e →
      P ((mmu.leaf ctx false a e frame size r).run m) = fin (.leaf a r ⟨size, frame⟩, m)) :
    P ((mmu.walkLegacy32 ctx).run mem) =
      fin (entries32.walkMark .accessed ctx.vaddr mmu.legacyLevels
        ((mmu.cr3 &&& 0xffff_ffff) &&& ~~~0xfff) .all mem) := by
  rw [walkLegacy32, run_bind_ok run_readU32, legacyLevels, Memory.walkMark]
  have hslot : ∀ b, mmu.pdeLevel32.slot b ctx.vaddr = entryAddr b ctx.vaddr 22 0x3ff 4 :=
    fun _ => rfl
  have hmarks : mmu.pdeLevel32.marks = true := rfl
  simp only [hslot, hmarks, if_true]
  obtain ⟨a, ha⟩ : ∃ a, entryAddr ((mmu.cr3 &&& 0xffff_ffff) &&& ~~~0xfff) ctx.vaddr 22 0x3ff 4 = a :=
    ⟨_, rfl⟩
  rw [ha]
  rcases checkPde32_cases mmu ctx mem (entries32.read mem a) with ⟨hc, hr⟩ | ⟨hc, hr⟩ | ⟨hc, hp, hr⟩
  · rw [run_bind_error hr, hc, he.absent]
  · rw [run_bind_error hr, hc, he.invalid]
  · rw [run_bind_ok hr, run_bind_ok (run_checkEntry32 rfl hp), hc]
    have hps : entries32.marked .accessed (entries32.read mem a) &&& ptePs =
      entries32.read mem a &&& ptePs := marked_and (by decide)
    have hread := read_mark32 .accessed mem a
    revert hps hread
    generalize entries32.marked .accessed (entries32.read mem a) = pde
    generalize entries32.mark .accessed mem a = m₁
    intro hps hread
    rw [← hps, present, run_bind_ok (run_pure pde)]
    cases hps : (pde &&& ptePs != 0)
    case true =>
      have hl : mmu.pdeLevel32.leaf pde = some ⟨.size4M, pde &&& 0xffc0_0000⟩ := if_pos hps
      simp only [hl]
      exact hleaf hread
    case false =>
      have hl : mmu.pdeLevel32.leaf pde = none := if_neg (eq_false_iff.mp hps)
      simp only [hl, false_eq_true]
      exact walkPte32_ends he hleaf

end Walks

end Aero.Mmu
