import ProposalVetting.Bytecode.Document
import ProposalVetting.Proofs.Json.Codec
import ProposalVetting.Report.Document

namespace ProposalVetting
open Json Decode Failure

theorem Bytecode.Verdict.decode_document (v : Bytecode.Verdict) :
    decode (reading v.document) = .ok v := by
  cases v <;> rfl

namespace Facts

theorem exact_document (f : Facts) : Exact f.document := by
  refine ⟨exact_optional fun code _ => exact_array fun b _ => exact_natural ?_,
    exact_natural f.nonce.toNat_lt, trivial⟩
  exact Nat.lt_of_lt_of_le b.toNat_lt (by decide)

theorem decode_document (f : Facts) : decode (reading f.document) = .ok f := by
  have hcode : optional (list byte)
      (reading (Json.optional (fun code => .array (code.map fun b => Json.natural b.toNat))
        f.code)) = .ok f.code :=
    optional_reading (fun _ h => nomatch h) fun code _ => list_reading fun b _ => byte_reading b
  have hnonce := word_reading "u64" f.nonce
  rw [decode, document, Layout.decode_reading (by simp [layout])]
  simp [layout, Draft.read, Draft.finish, once_none, required, hcode, hnonce, ok_bind, pure_eq_ok]

theorem readsBack (f : Facts) : ReadsBack decode document f :=
  readsBack_of_reading f.exact_document f.decode_document

end Facts

namespace Bytecode.ScanReport

/-- Every position and count of the report fits into 64 bits. -/
structure Fits (r : ScanReport) : Prop where
  selfDestruct : ∀ pc ∈ r.selfDestruct, pc < UInt64.size
  delegateCalls : ∀ pc ∈ r.delegateCalls, pc < UInt64.size
  visited : r.visited < UInt64.size
  codeLength : r.codeLength < UInt64.size

variable {r : ScanReport}

theorem Fits.exact_document (h : r.Fits) : Exact r.document :=
  ⟨trivial, exact_optional fun pc hpc => exact_natural (h.selfDestruct pc hpc),
    exact_array fun pc hpc => exact_natural (h.delegateCalls pc hpc), exact_natural h.visited,
    trivial, exact_natural h.codeLength, trivial⟩

theorem Fits.decode_document (h : r.Fits) : decode (reading r.document) = .ok r := by
  have hverdict := Verdict.decode_document r.verdict
  have hself : optional count (reading (Json.optional Json.natural r.selfDestruct)) =
      .ok r.selfDestruct :=
    optional_reading (fun _ h => nomatch h) fun pc hpc => count_reading (h.selfDestruct pc hpc)
  have hdelegate : list count (reading (.array (r.delegateCalls.map Json.natural))) =
      .ok r.delegateCalls :=
    list_reading fun pc hpc => count_reading (h.delegateCalls pc hpc)
  have hvisited := count_reading h.visited
  have htruncated : Decode.bool (reading (.bool r.truncated)) = .ok r.truncated := rfl
  have hlength := count_reading h.codeLength
  rw [decode, document, Layout.decode_reading (by simp [layout])]
  simp [layout, Draft.read, Draft.finish, once_none, required, hverdict, hself, hdelegate, hvisited,
    htruncated, hlength, ok_bind, pure_eq_ok]

theorem Fits.readsBack (h : r.Fits) : ReadsBack decode document r :=
  readsBack_of_reading h.exact_document h.decode_document

end Bytecode.ScanReport

namespace AddressReport

theorem exact_document (r : AddressReport) : Exact r.document := by
  obtain ⟨address, _ | _⟩ := r
  · exact ⟨trivial, trivial, trivial, trivial⟩
  · exact ⟨trivial, trivial, trivial, trivial⟩

/-- The status tells which of the two outcomes stands beside the address, at any depth. -/
theorem decode_document (depth : Nat) (r : AddressReport) :
    decode depth (reading r.document) = .ok r := by
  obtain ⟨address, category | reason⟩ := r
  · cases category <;> rfl
  · rfl

theorem readsBack (r : AddressReport) : ReadsBack (decode 1) document r :=
  readsBack_of_reading r.exact_document (r.decode_document 1)

end AddressReport

namespace Report

theorem exact_document (r : Report) : Exact r.document :=
  ⟨trivial, exact_strings _, exact_strings _, exact_strings _,
    exact_array fun a _ => a.exact_document, trivial⟩

theorem decode_document (r : Report) : decode (reading r.document) = .ok r := by
  have hname : Decode.text (reading (.text r.name)) = .ok r.name := rfl
  have haddresses :
      list (AddressReport.decode 3) (reading (.array (r.addresses.map AddressReport.document))) =
        .ok r.addresses := list_reading fun a _ => a.decode_document 3
  rw [decode, document, Layout.decode_reading (by simp [layout])]
  simp [layout, Draft.read, Draft.finish, once_none, required, hname, strings_reading,
    haddresses, ok_bind, pure_eq_ok]

theorem readsBack (r : Report) : ReadsBack decode document r :=
  readsBack_of_reading r.exact_document r.decode_document

/-- All that is written of findings is read back, and no two address reports are written alike. -/
theorem findings_read_back :
    (∀ r : Report, ReadsBack decode document r) ∧
    (∀ r : AddressReport, ReadsBack (AddressReport.decode 1) AddressReport.document r) ∧
    (∀ r s : AddressReport, r ≠ s → ¬ ∃ text, r.document.Written text ∧ s.document.Written text) ∧
    (∀ r : Bytecode.ScanReport, r.Fits →
      ReadsBack Bytecode.ScanReport.decode Bytecode.ScanReport.document r) ∧
    ∀ f : Facts, ReadsBack Facts.decode Facts.document f := by
  refine ⟨readsBack, AddressReport.readsBack, ?_, fun r h => h.readsBack, Facts.readsBack⟩
  rintro r s hne ⟨text, hr, hs⟩
  exact hne (r.readsBack.unique s.readsBack hr hs)

/-- The greatest position and the longest code. -/
def farthest : Bytecode.ScanReport where
  verdict := .selfDestruct
  selfDestruct := some 18446744073709551614
  delegateCalls := [0, 18446744073709551613]
  visited := 18446744073709551615
  truncated := false
  codeLength := 18446744073709551615

/-- The greatest numbers are read back, and a category is not taken for a reason that is spelled
like it. -/
theorem farthest_reads_back :
    farthest.Fits ∧ ReadsBack Bytecode.ScanReport.decode Bytecode.ScanReport.document farthest ∧
    ¬ ∃ text, (AddressReport.mk "0x" (.classified .safe)).document.Written text ∧
      (AddressReport.mk "0x" (.unclassified "safe")).document.Written text := by
  have hfits : farthest.Fits := ⟨by decide, by decide, by decide, by decide⟩
  obtain ⟨-, -, hapart, hscan, -⟩ := findings_read_back
  exact ⟨hfits, hscan farthest hfits, hapart _ _ (by decide)⟩

end Report
end ProposalVetting
