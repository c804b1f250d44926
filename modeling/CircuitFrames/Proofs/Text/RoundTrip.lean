import CircuitFrames.Proofs.Text.Soundness

/-!
# Emitting and reading

Reading undoes emitting (`parse_emit`): a circuit that a text can say, with finite arguments below
two to the power of sixty-four, is what its own text is read as. The bound is where the two number
formats part. Every double is written in plain digits, but digits alone are read as an integer of
sixty-four bits, so the text of a circuit that was itself read off a text is readable exactly if its
arguments keep to the bound (`reparse_iff`).
-/

namespace CircuitFrames.Text

open Numeral

theorem fits_and_finite_iff {x : Float} :
    Fits x ∧ x.isFinite = true ↔ x.isFinite = true ∧ x.abs < 18446744073709551616 := by
  unfold Fits
  rw [← isSome_shown?]
  cases hshown : shown? x with
  | none => exact ⟨fun h => absurd h.2 Bool.false_ne_true, fun h => absurd h.1 Bool.false_ne_true⟩
  | some shown =>
    obtain ⟨s, d⟩ := shown
    have hbound := abs_lt_iff_of_shown hshown
    constructor
    · rintro ⟨hfits, hfinite⟩
      exact ⟨hfinite, hbound.mpr (hfits s d rfl)⟩
    · rintro ⟨hfinite, hlt⟩
      refine ⟨?_, hfinite⟩
      intro s' d' h
      cases h
      exact hbound.mp hlt

theorem scan_emit_iff {c : Circuit} (hc : c.Spelled) {ts : List Token} :
    scan (emit c).toList = .ok ts ↔
      (∀ o ∈ c.written, ∀ x ∈ o.args, Fits x) ∧ ts = c.tokens := by
  have hreads := reads_emit fun o ho => (hc.operations o ho).name
  have hscanned : scan (emit c).toList = .ok ts ↔ scanned ((emit c).toList ++ []) = some ts := by
    rw [List.append_nil, scanned]
    cases scan (emit c).toList with
    | error u => constructor <;> intro h <;> cases h
    | ok found => exact ⟨fun h => congrArg some (Except.ok.inj h), fun h => congrArg _ (Option.some.inj h)⟩
  rw [hscanned]
  by_cases hfits : ∀ o ∈ c.written, ∀ x ∈ o.args, Fits x
  · rw [hreads.read hfits, scanned_nil, Option.map_some, List.append_nil, Option.some.injEq]
    exact ⟨fun h => ⟨hfits, h.symm⟩, fun h => h.2.symm⟩
  · rw [hreads.stop hfits]
    refine ⟨fun h => ?_, fun h => absurd h.1 hfits⟩
    cases h

theorem parse_emit_iff {c : Circuit} (hc : c.Spelled) {d : Circuit} :
    parse (emit c) = .ok d ↔
      (∀ o ∈ c.written, ∀ x ∈ o.args, x.isFinite = true ∧ x.abs < 18446744073709551616) ∧ d = c := by
  simp only [parse_eq_ok_iff, scan_emit_iff hc, ← fits_and_finite_iff]
  constructor
  · rintro ⟨ts, l, r, ⟨hfits, rfl⟩, htakes⟩
    rw [← List.append_nil c.tokens] at htakes
    obtain ⟨hfinite, e, rfl, hend⟩ := (takes_tokens_iff hc hfits).mp htakes
    cases hend with
    | atEnd =>
      exact ⟨fun o ho x hx => ⟨hfits o ho x hx, hfinite o ho x hx⟩, Circuit.append_nil c⟩
    | operation first h => cases first
    | opening first inner runs h => cases first
  · rintro ⟨hargs, rfl⟩
    have hfits o ho x hx := (hargs o ho x hx).1
    have htakes : Takes false 1 (d.tokens ++ []) d (1 + height d) [] :=
      (takes_tokens_iff hc hfits).mpr
        ⟨fun o ho x hx => (hargs o ho x hx).2, .nil, (Circuit.append_nil d).symm, .atEnd⟩
    rw [List.append_nil] at htakes
    exact ⟨_, _, _, ⟨hfits, rfl⟩, htakes⟩

/-- **Reading undoes emitting**, for every circuit that a text can say and whose arguments are finite
and below two to the power of sixty-four. -/
theorem parse_emit {c : Circuit} (hc : c.Spelled)
    (hargs : ∀ o ∈ c.written, ∀ x ∈ o.args, x.isFinite = true ∧ x.abs < 18446744073709551616) :
    parse (emit c) = .ok c :=
  (parse_emit_iff hc).mpr ⟨hargs, rfl⟩

/-- Combiners that join nothing, a lookback beside an inverted product and a block in a block are
read as they were. -/
theorem parse_emit_block_in_block :
    let product : Operation := ⟨"MPP", .pauliProduct,
      [.combiner, .pauli .x 5 true, .combiner, .combiner, .record (-1), .qubit 7 true, .combiner],
      [-0.25, 18446744073709549568]⟩
    let c : Circuit := .repeated 2 (.repeated 3 (.op product .nil) (.op (.named "TICK" [] []) .nil)) .nil
    parse (emit c) = .ok c := by
  intro product c
  have hproduct : product.Spelled := ⟨by decide, by decide, by decide, by
    intro k hk
    simp only [product, List.mem_cons, reduceCtorEq, Target.record.injEq, List.not_mem_nil,
      false_or, or_false] at hk
    rw [hk]
    decide⟩
  have htick : (Operation.named "TICK" [] []).Spelled := ⟨by decide, by decide, rfl, nofun⟩
  refine parse_emit ⟨?_, ?_⟩ ?_
  · exact List.forall_mem_cons.mpr ⟨hproduct, List.forall_mem_singleton.mpr htick⟩
  · exact List.forall_mem_cons.mpr ⟨by decide, List.forall_mem_singleton.mpr (by decide)⟩
  · decide +kernel

/-- **Emitting what was read**: the text of a circuit that a text was read as is read again exactly if
every argument is finite and below two to the power of sixty-four. -/
theorem reparse_iff {source : String} {c : Circuit} (h : parse source = .ok c) :
    (∃ d, parse (emit c) = .ok d) ↔
      ∀ o ∈ c.written, ∀ x ∈ o.args, x.isFinite = true ∧ x.abs < 18446744073709551616 := by
  have hc := spelled_of_parse h
  constructor
  · rintro ⟨d, hd⟩
    exact ((parse_emit_iff hc).mp hd).1
  · exact fun hargs => ⟨c, (parse_emit_iff hc).mpr ⟨hargs, rfl⟩⟩

/-- A circuit with the largest double below the bound is read again. -/
theorem reparse_of_large :
    let c : Circuit := .op (.named "X_ERROR" [.qubit 0 false] [18446744073709549568]) .nil
    parse "X_ERROR(18446744073709550000) 0" = .ok c ∧ ∃ d, parse (emit c) = .ok d := by
  intro c
  have h : parse "X_ERROR(18446744073709550000) 0" = .ok c := by decide +kernel
  exact ⟨h, (reparse_iff h).mpr (by decide +kernel)⟩

/-- The text of a circuit that a text was read as is not always read again: ten to the power of twenty
is written with digits alone, which are too many for an integer. -/
theorem parse_emit_ne_ok :
    let c : Circuit := .op (.named "X_ERROR" [.qubit 0 false] [100000000000000000000]) .nil
    parse "X_ERROR(1e20) 0" = .ok c ∧ emit c = "X_ERROR(100000000000000000000) 0\n" ∧
      parse (emit c) = .error (.unreadable 8 "100000000000000000000") := by
  decide +kernel

end CircuitFrames.Text
