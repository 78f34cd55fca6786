-- The assembler of the editor runs the programs that fit in its buffers as RV32I does, and
-- does not look at a statement before it runs.
import Vibeos.AsmRun
import Vibeos.WgetFeed

namespace vibeos.asm

open vibeos.fs vibeos.wget vibeos.Rv32 vibeos.Labelled

/-- A program is taken if its labels are distinct and the tables are large enough. Each of its
labels then refers to the first instruction behind it, and the tool reports what at most 200000
instructions do. -/
theorem run_asm_file_faithful [NetConfig] {src : List SourceLine} (hfits : Fits src)
    (hne : sourceText src ≠ [])
    (hlen : (sourceText src).length < NetConfig.WGET_MAX_FILE_SIZE - 1) :
    (Acceptable src → ∃ prog, asm_build_program (sourceText src) = .ok prog ∧
      (∀ l, (behind l (lines src) = none ∧ asm_find_label prog l = none) ∨
        ∃ there pc, behind l (lines src) = some there ∧ asm_find_label prog l = some pc ∧
          prog.insts[pc]? = (fetch there).map fun p => p.1.text) ∧
      Reports (execute src ASM_MAX_STEPS) (run_asm_file (sourceText src))) ∧
    (¬ Acceptable src → ∃ msg, asm_build_program (sourceText src) = .error msg ∧
      run_asm_file (sourceText src) = ⟨false, msg, Vector.replicate 32 0⟩) := by
  obtain ⟨hok, herror⟩ := asm_build_program_sourceText hfits.short
  unfold run_asm_file
  rw [if_neg hne, if_neg (Nat.not_le.mpr hlen)]
  constructor
  · intro h
    rw [hok h]
    exact ⟨program src, rfl, asm_find_label_behind hfits, asm_exec_program_reports hfits⟩
  · intro h
    obtain ⟨msg, hmsg⟩ := herror h
    rw [hmsg]
    exact ⟨msg, rfl, rfl⟩

/-! ## Programs for one run -/

def noGap : Gap := ⟨[], by decide +kernel⟩
def space : Sep := ⟨ascii " ", by decide +kernel, by decide +kernel⟩
def comma : Sep := ⟨ascii ", ", by decide +kernel, by decide +kernel⟩

def plainLine (labels : List (Label × Gap)) (stmt : Option Stmt)
    (h : NoComment (lineText noGap labels stmt noGap)) : SourceLine :=
  ⟨noGap, labels, stmt, noGap, [], h, Or.inl rfl, by decide +kernel⟩

def a0 : Token := ⟨ascii "a0", by decide +kernel, by decide +kernel⟩
def zero : Token := ⟨ascii "zero", by decide +kernel, by decide +kernel⟩
def addi : Token := ⟨ascii "addi", by decide +kernel, by decide +kernel⟩
def li : Token := ⟨ascii "li", by decide +kernel, by decide +kernel⟩
def bne : Token := ⟨ascii "bne", by decide +kernel, by decide +kernel⟩
def jump : Token := ⟨ascii "j", by decide +kernel, by decide +kernel⟩
def loop : Token := ⟨ascii "loop", by decide +kernel, by decide +kernel⟩
def frob : Token := ⟨ascii "frob", by decide +kernel, by decide +kernel⟩
def five : Token := ⟨ascii "5", by decide +kernel, by decide +kernel⟩
def minusOne : Token := ⟨ascii "-1", by decide +kernel, by decide +kernel⟩
def wide : Token := ⟨ascii "4096", by decide +kernel, by decide +kernel⟩
def loopLabel : Label := ⟨ascii "loop", by decide, by decide⟩

def countdown : List SourceLine :=
  [plainLine [] (some ⟨li, [(space, a0), (comma, five)]⟩)
      ⟨by decide, by decide⟩,
    ⟨noGap, [(loopLabel, ⟨ascii " ", by decide +kernel⟩)],
      some ⟨addi, [(space, a0), (comma, a0), (comma, minusOne)]⟩,
      ⟨ascii " ", by decide +kernel⟩, ascii "# one less", ⟨by decide +kernel, by decide +kernel⟩,
      Or.inr (Or.inl rfl), by decide +kernel⟩,
    plainLine [] (some ⟨bne, [(space, a0), (comma, zero), (comma, loop)]⟩)
      ⟨by decide, by decide⟩]

example : asm_exec_program (program countdown) =
    ⟨true, ascii ">> asm done", Vector.replicate 32 0⟩ := by
  decide

example : sourceText countdown =
    ascii "li a0, 5\nloop: addi a0, a0, -1 # one less\nbne a0, zero, loop" := by decide

theorem countdown_fits : Fits countdown := by
  refine ⟨by decide, by decide, by decide, ?_⟩
  intro st hst t ht ds n hds
  have hnone : ∀ st ∈ code (lines countdown), ∀ t ∈ st.tokens, numbered t = none := by
    decide
  rw [hnone st hst t ht] at hds
  cases hds

theorem countdown_acceptable : Acceptable countdown :=
  ⟨by decide, by decide, by decide⟩

theorem countdown_reports :
    ∃ prog, asm_build_program (sourceText countdown) = .ok prog ∧
      (∀ l, (behind l (lines countdown) = none ∧ asm_find_label prog l = none) ∨
        ∃ there pc, behind l (lines countdown) = some there ∧ asm_find_label prog l = some pc ∧
          prog.insts[pc]? = (fetch there).map fun p => p.1.text) ∧
      Reports (execute countdown ASM_MAX_STEPS) (@run_asm_file qemuNet (sourceText countdown)) :=
  (@run_asm_file_faithful qemuNet countdown countdown_fits (by decide)
    (by decide)).1 countdown_acceptable

/-! ## Programs that are not rejected, or not run -/

/-- A jump over a line that is no instruction. -/
def unknownLine : List SourceLine :=
  [plainLine [] (some ⟨jump, [(space, loop)]⟩) ⟨by decide, by decide⟩,
    plainLine [] (some ⟨frob, []⟩) ⟨by decide, by decide⟩,
    plainLine [(loopLabel, noGap)]
      (some ⟨li, [(space, a0), (comma, five)]⟩)
      ⟨by decide, by decide⟩]

def wideAddi : List SourceLine :=
  [plainLine []
    (some ⟨addi, [(space, a0), (comma, zero), (comma, wide)]⟩)
    ⟨by decide, by decide⟩]

def longName : List UInt8 := ascii "label_of_20_letters_"

def longToken : Token := ⟨longName, by decide +kernel, by decide +kernel⟩

def longLabel : List SourceLine :=
  [plainLine [] (some ⟨jump, [(space, longToken)]⟩) ⟨by decide, by decide⟩,
    plainLine [(⟨longName, by decide, by decide⟩, noGap)]
      (some ⟨li, [(space, a0), (comma, five)]⟩)
      ⟨by decide, by decide⟩]

theorem longLabel_wellFormed : WellFormed longLabel := by
  refine ⟨by decide, ?_⟩
  have hcode : code (lines longLabel) =
      [⟨jump, [(space, longToken)]⟩,
        ⟨li, [(space, a0), (comma, five)]⟩] := rfl
  rw [hcode]
  intro st hst
  rcases List.mem_cons.mp hst with h | hst
  · rw [h]
    exact ⟨.j longName, by decide, trivial, by decide⟩
  · rw [List.mem_singleton.mp hst]
    exact ⟨.li 10 5, by decide, ⟨by decide, by decide⟩, by decide⟩

theorem not_reports_of_halted {v : Verdict Machine} {r : asm_result}
    (hv : (match v with | .halted _ => true | _ => false) = true) (hr : r.ok = false) :
    ¬ Reports v r := by
  intro h
  cases v with
  | halted m =>
    rw [h.1] at hr
    cases hr
  | stuck m => cases hv
  | running m => cases hv

/-- The tool runs a program with an unknown mnemonic and one with an immediate that is too
large, and it rejects a program whose label is too long for its table. -/
theorem asm_not_checked :
    (¬ WellFormed unknownLine ∧ (@run_asm_file qemuNet (sourceText unknownLine)).ok = true) ∧
    (¬ WellFormed wideAddi ∧ (@run_asm_file qemuNet (sourceText wideAddi)).ok = true) ∧
    WellFormed longLabel ∧
      ¬ Reports (execute longLabel ASM_MAX_STEPS) (@run_asm_file qemuNet (sourceText longLabel)) := by
  refine ⟨⟨?_, by decide +kernel⟩, ⟨?_, by decide +kernel⟩, longLabel_wellFormed, ?_⟩
  · intro h
    have hmem : (⟨frob, []⟩ : Stmt) ∈ code (lines unknownLine) :=
      List.mem_cons_of_mem _ List.mem_cons_self
    obtain ⟨op, hop, _⟩ := h.known _ hmem
    have hnone : operation (Stmt.tokens ⟨frob, []⟩) = none := by decide
    rw [hnone] at hop
    cases hop
  · intro h
    obtain ⟨op, hop, henc, _⟩ := h.known _ List.mem_cons_self
    have hsome : operation (Stmt.tokens ⟨addi, [(space, a0), (comma, zero),
        (comma, wide)]⟩) = some (.addi 10 0 4096) := by
      decide
    rw [Option.some.inj (hop.symm.trans hsome)] at henc
    exact absurd henc.2 (by decide)
  · exact not_reports_of_halted (by decide +kernel) (by decide +kernel)

end vibeos.asm
