import CircuitFrames.Proofs.Text.Reading

/-!
# What reading builds

Every reader leaves the end of the tokens that it was given, so the names of the operations it builds
are words of the text. A circuit that a text is read as can be said in a text again
(`spelled_of_parse`).
-/

namespace CircuitFrames.Text

/-! ### What readers leave -/

theorem suffix_of_unsigned {line : Nat} {ts rest : List Token} {v : Float}
    (h : unsigned line ts = .ok (v, rest)) : rest <:+ ts := by
  unfold unsigned at h
  split at h
  next => cases h; exact List.suffix_cons _ _
  next => cases h; exact List.suffix_cons _ _
  next => cases h
  next => cases h

theorem suffix_of_signed {line : Nat} {ts rest : List Token} {v : Float}
    (h : signed line ts = .ok (v, rest)) : rest <:+ ts := by
  unfold signed at h
  split at h
  next =>
    split at h
    next hv =>
      cases h
      exact (suffix_of_unsigned hv).trans (List.suffix_cons _ _)
    next => cases h
  next => exact suffix_of_unsigned h

theorem suffix_of_numbers {line : Nat} {ts rest : List Token} {vs : List Float}
    (h : numbers line ts = .ok (vs, rest)) : rest <:+ ts := by
  induction hn : ts.length using Nat.strong_induction_on generalizing ts vs with
  | _ n ih =>
    subst hn
    rcases numbers_eq_ok_iff.mp h with ⟨v, hv, -⟩ | ⟨v, more, ws, hv, hws, -⟩
    · exact (List.suffix_cons _ _).trans (suffix_of_signed hv)
    · have hlength := signed_length hv
      have hmore := ih more.length (by rw [List.length_cons] at hlength; omega) hws rfl
      exact (hmore.trans (List.suffix_cons _ _)).trans (suffix_of_signed hv)

theorem suffix_of_arguments {line : Nat} {ts rest : List Token} {vs : List Float}
    (h : arguments line ts = .ok (vs, rest)) : rest <:+ ts := by
  unfold arguments at h
  split at h
  next =>
    cases h
    exact (List.suffix_cons _ _).trans (List.suffix_cons _ _)
  next => exact (suffix_of_numbers h).trans (List.suffix_cons _ _)
  next =>
    cases h
    exact List.suffix_rfl

theorem suffix_of_expect {line : Nat} {wanted : Token} {ts rest : List Token}
    (h : expect line wanted ts = .ok rest) : rest <:+ ts := by
  unfold expect at h
  split at h
  next => cases h
  next =>
    split at h
    next => cases h; exact List.suffix_cons _ _
    next => cases h

theorem suffix_of_integer {line : Nat} {ts rest : List Token} {n : UInt64}
    (h : integer line ts = .ok (n, rest)) : rest <:+ ts := by
  unfold integer at h
  split at h
  next => cases h; exact List.suffix_cons _ _
  next => cases h
  next => cases h

/-! ### Targets -/

/-- The target is no lookback that does not go back. -/
def LooksBack (t : Target) : Prop :=
  ∀ k, t = .record k → k < 0

theorem looksBack_of_not_record {t : Target} (h : t.isRecord = false) : LooksBack t := by
  rintro k rfl
  cases h

theorem looksBack_of_recordOf {line magnitude : Nat} {negative : Bool} {t : Target}
    (h : recordOf line negative magnitude = .ok t) : LooksBack t := by
  have hlookback {offset : Int} {t : Target} (h : Target.lookback offset = .ok t) : LooksBack t := by
    unfold Target.lookback at h
    split at h
    next hbounds =>
      cases h
      rintro k heq
      cases heq
      have hleast : -2 ^ 31 ≤ offset := hbounds.1
      rw [Int32.lt_iff_toInt_lt, Int32.toInt_ofInt_of_le hleast (by omega)]
      exact hbounds.2
    next => cases h
  unfold recordOf at h
  split at h
  next =>
    split at h
    next ht =>
      cases h
      exact hlookback ht
    next => cases h
  next => cases h

theorem record_sound {line : Nat} {ts rest : List Token} {t : Target}
    (h : record line ts = .ok (t, rest)) : LooksBack t ∧ rest <:+ ts := by
  unfold record at h
  obtain ⟨ts₁, h₁, h⟩ := bind_eq_ok.mp h
  dsimp only at h
  obtain ⟨⟨magnitude, ts₂⟩, h₂, h⟩ := bind_eq_ok.mp h
  obtain ⟨ts₃, h₃, h⟩ := bind_eq_ok.mp h
  obtain ⟨t', ht, h⟩ := bind_eq_ok.mp h
  cases h
  have hsuffix := suffix_of_integer h₂
  have hminus : ts₂ <:+ ts₁ := by
    split at hsuffix
    next => exact hsuffix.trans (List.suffix_cons _ _)
    next => exact hsuffix
  exact ⟨looksBack_of_recordOf ht,
    (suffix_of_expect h₃).trans (hminus.trans (suffix_of_expect h₁))⟩

theorem looksBack_of_pauliOf {line : Nat} {w : String} {t : Target} (h : pauliOf line w = .ok t) :
    LooksBack t := by
  unfold pauliOf at h
  split at h
  next => cases h
  next =>
    split at h
    next => cases h
    next =>
      dsimp only at h
      split at h
      next =>
        split at h
        next => cases h; exact looksBack_of_not_record rfl
        next => cases h
      next => cases h

theorem uprightTarget_sound {line : Nat} {first : Token} {ts rest : List Token} {t : Target}
    (h : uprightTarget line first ts = .ok (t, rest)) : LooksBack t ∧ rest <:+ ts := by
  unfold uprightTarget at h
  split at h
  next n =>
    unfold numberOf at h
    split at h
    next ht =>
      cases h
      refine ⟨?_, List.suffix_rfl⟩
      split at ht
      next => cases ht; exact looksBack_of_not_record rfl
      next => cases ht
    next => cases h
  next =>
    cases h
    exact ⟨looksBack_of_not_record rfl, List.suffix_rfl⟩
  next w =>
    split at h
    next => exact record_sound h
    next =>
      split at h
      next ht =>
        cases h
        exact ⟨looksBack_of_pauliOf ht, List.suffix_rfl⟩
      next => cases h
  all_goals cases h

theorem target_sound {line : Nat} {ts rest : List Token} {t : Target}
    (h : target line ts = .ok (t, rest)) : LooksBack t ∧ rest <:+ ts := by
  induction ts generalizing t rest with
  | nil => cases h
  | cons first ts ih =>
    unfold target at h
    split at h
    next heq =>
      cases heq
      split at h
      next => cases h
      next t' rest' h' =>
        have hsuffix := (ih h').2.trans (List.suffix_cons .bang ts)
        split at h
        next => cases h; exact ⟨looksBack_of_not_record rfl, hsuffix⟩
        next => cases h; exact ⟨looksBack_of_not_record rfl, hsuffix⟩
        next => cases h
        next => cases h
    next heq =>
      cases heq
      obtain ⟨hback, hsuffix⟩ := uprightTarget_sound h
      exact ⟨hback, hsuffix.trans (List.suffix_cons _ _)⟩
    next heq => cases heq

theorem targets_sound {line : Nat} {ts rest : List Token} {found : List Target}
    (h : targets line ts = .ok (found, rest)) :
    (∀ k, .record k ∈ found → k < 0) ∧ rest <:+ ts := by
  fun_induction targets line ts generalizing found rest with
  | case1 =>
    cases h
    exact ⟨fun _ h => absurd h List.not_mem_nil, List.suffix_rfl⟩
  | case2 => cases h
  | case3 _ _ t rest' ht more rest'' hmore ih =>
    cases h
    obtain ⟨hback, hsuffix⟩ := target_sound ht
    obtain ⟨hmoreback, hmoresuffix⟩ := ih hmore
    refine ⟨fun k hk => ?_, hmoresuffix.trans hsuffix⟩
    rcases List.mem_cons.mp hk with hk | hk
    · exact hback k hk.symm
    · exact hmoreback k hk
  | case4 => cases h

/-! ### Instructions and circuits -/

theorem instruction_operation_sound {line : Nat} {ts rest : List Token} {o : Operation}
    (hwords : ∀ w, .word w ∈ ts → isName w = true)
    (h : instruction line ts = .ok (.operation o, rest)) : o.Spelled ∧ rest <:+ ts := by
  obtain ⟨name, more, rfl⟩ := instruction_head h
  unfold instruction at h
  dsimp only at h
  split at h
  next =>
    obtain ⟨p, -, h⟩ := bind_eq_ok.mp h
    obtain ⟨rest', -, h⟩ := bind_eq_ok.mp h
    cases h
  next hname =>
    obtain ⟨⟨args, after⟩, hargs, h⟩ := bind_eq_ok.mp h
    obtain ⟨⟨found, left⟩, hfound, h⟩ := bind_eq_ok.mp h
    cases h
    obtain ⟨hback, hsuffix⟩ := targets_sound hfound
    exact ⟨⟨hwords name List.mem_cons_self, hname, rfl, hback⟩,
      (hsuffix.trans (suffix_of_arguments hargs)).trans (List.suffix_cons _ _)⟩

theorem instruction_opening_sound {line : Nat} {ts rest : List Token} {count : UInt64}
    (h : instruction line ts = .ok (.opening count, rest)) : rest <:+ ts := by
  obtain ⟨name, more, rfl⟩ := instruction_head h
  unfold instruction at h
  dsimp only at h
  split at h
  next =>
    obtain ⟨⟨n, after⟩, hn, h⟩ := bind_eq_ok.mp h
    obtain ⟨rest', hbrace, h⟩ := bind_eq_ok.mp h
    cases h
    exact ((suffix_of_expect hbrace).trans (suffix_of_integer hn)).trans (List.suffix_cons _ _)
  next =>
    obtain ⟨p, -, h⟩ := bind_eq_ok.mp h
    obtain ⟨q, -, h⟩ := bind_eq_ok.mp h
    cases h

theorem takes_sound {nested : Bool} {line l : Nat} {ts r : List Token} {c : Circuit}
    (hwords : ∀ w, .word w ∈ ts → isName w = true) (h : Takes nested line ts c l r) :
    c.Spelled ∧ r <:+ ts := by
  have hkept {ts rest : List Token} (hwords : ∀ w, .word w ∈ ts → isName w = true)
      (h : rest <:+ ts) : ∀ w, .word w ∈ rest → isName w = true :=
    fun w hw => hwords w (h.subset hw)
  have hnil : Circuit.Spelled .nil :=
    ⟨fun _ h => absurd h List.not_mem_nil, fun _ h => absurd h List.not_mem_nil⟩
  induction h with
  | atEnd => exact ⟨hnil, List.suffix_rfl⟩
  | brace => exact ⟨hnil, List.suffix_cons _ _⟩
  | newline h ih =>
    obtain ⟨hspelled, hsuffix⟩ := ih (hkept hwords (List.suffix_cons _ _))
    exact ⟨hspelled, hsuffix.trans (List.suffix_cons _ _)⟩
  | operation first h ih =>
    obtain ⟨hfirst, hsuffix⟩ := instruction_operation_sound hwords first
    obtain ⟨hspelled, hmore⟩ := ih (hkept hwords hsuffix)
    exact ⟨⟨List.forall_mem_cons.mpr ⟨hfirst, hspelled.operations⟩, hspelled.counts⟩,
      hmore.trans hsuffix⟩
  | opening first inner runs h ihinner ih =>
    have hsuffix := instruction_opening_sound first
    obtain ⟨hbody, hinner⟩ := ihinner (hkept hwords hsuffix)
    obtain ⟨hspelled, hmore⟩ := ih (hkept hwords (hinner.trans hsuffix))
    exact ⟨⟨List.forall_mem_append.mpr ⟨hbody.operations, hspelled.operations⟩,
      List.forall_mem_cons.mpr ⟨runs, List.forall_mem_append.mpr ⟨hbody.counts, hspelled.counts⟩⟩⟩,
      (hmore.trans hinner).trans hsuffix⟩

theorem spelled_of_parse {source : String} {c : Circuit} (h : parse source = .ok c) : c.Spelled := by
  obtain ⟨ts, l, r, hscan, htakes⟩ := parse_eq_ok_iff.mp h
  exact (takes_sound (isName_of_scan hscan) htakes).1

end CircuitFrames.Text
