import RewardPlot.Proofs.Text.Splitting
import RewardPlot.Proofs.Text.Utf8
/-!
# Malformed bytes

Bytes are decoded part by part, and a malformed part holds no ASCII character.  An ASCII
character therefore is decoded alone wherever it stands, so the bytes on both sides of it are
decoded as if the others were not there.
-/

namespace RewardPlot.Utf8

/-! ## Encodings of characters -/

theorem toNat_ofNat_of_valid {v : Nat} (hv : v < 0xD800 ∨ 0xDFFF < v ∧ v < 0x110000) :
    (Char.ofNat v).val.toNat = v := by
  rw [Char.ofNat, dif_pos hv]
  rfl

theorem ofNat_eq {b : UInt8} {n : Nat} (hn : n = b.toNat) : UInt8.ofNat n = b := by
  rw [hn, UInt8.ofNat_toNat]

/-- The character of an ASCII byte. -/
def asciiChar (b : UInt8) : Char := Char.ofNat b.toNat

theorem toNat_asciiChar {b : UInt8} (hb : b.toNat < 0x80) : (asciiChar b).val.toNat = b.toNat :=
  toNat_ofNat_of_valid (.inl (by omega))

theorem encode_one {b : UInt8} (hb : b.toNat < 0x80) :
    String.utf8EncodeChar (asciiChar b) = [b] := by
  rw [String.utf8EncodeChar, toNat_asciiChar hb, if_pos (by omega), ofNat_eq rfl]

/-- A byte in the middle of a character. -/
def Following (b : UInt8) : Prop := 0x80 ≤ b.toNat ∧ b.toNat ≤ 0xBF

theorem encode_two {b k : UInt8} (hb : 0xC2 ≤ b.toNat ∧ b.toNat ≤ 0xDF) (hk : Following k) :
    String.utf8EncodeChar (Char.ofNat (b.toNat % 32 * 64 + k.toNat % 64)) = [b, k] := by
  unfold Following at hk
  rw [String.utf8EncodeChar, toNat_ofNat_of_valid (by omega), if_neg (by omega), if_pos (by omega),
    ofNat_eq (b := b) (by omega), ofNat_eq (b := k) (by omega)]

theorem encode_three {b k l : UInt8} (hb : 0xE0 ≤ b.toNat ∧ b.toNat ≤ 0xEF) (hk : Following k)
    (hl : Following l) (hlow : b.toNat = 0xE0 → 0xA0 ≤ k.toNat)
    (hhigh : b.toNat = 0xED → k.toNat ≤ 0x9F) :
    String.utf8EncodeChar (Char.ofNat ((b.toNat % 16 * 64 + k.toNat % 64) * 64 + l.toNat % 64)) =
      [b, k, l] := by
  unfold Following at hk hl
  rw [String.utf8EncodeChar, toNat_ofNat_of_valid (by omega), if_neg (by omega), if_neg (by omega),
    if_pos (by omega), ofNat_eq (b := b) (by omega), ofNat_eq (b := k) (by omega),
    ofNat_eq (b := l) (by omega)]

theorem encode_four {b k l m : UInt8} (hb : 0xF0 ≤ b.toNat ∧ b.toNat ≤ 0xF4) (hk : Following k)
    (hl : Following l) (hm : Following m) (hlow : b.toNat = 0xF0 → 0x90 ≤ k.toNat)
    (hhigh : b.toNat = 0xF4 → k.toNat ≤ 0x8F) :
    String.utf8EncodeChar (Char.ofNat
      (((b.toNat % 8 * 64 + k.toNat % 64) * 64 + l.toNat % 64) * 64 + m.toNat % 64)) =
      [b, k, l, m] := by
  unfold Following at hk hl hm
  rw [String.utf8EncodeChar, toNat_ofNat_of_valid (by omega), if_neg (by omega), if_neg (by omega),
    if_neg (by omega), ofNat_eq (b := b) (by omega), ofNat_eq (b := k) (by omega),
    ofNat_eq (b := l) (by omega), ofNat_eq (b := m) (by omega)]


/-! ## The encoding begun by open characters -/

/-- An open character after the bytes seen so far: none of them is ASCII and no ASCII byte is
wanted next, and wanted bytes make them the encoding of a character. -/
inductive Begun : List UInt8 → Pending → Prop
  | last {seen : List UInt8} {value : Nat} {low high : UInt8} (hlow : 0x80 ≤ low.toNat)
      (hseen : ∀ b ∈ seen, 0x80 ≤ b.toNat)
      (hencode : ∀ b : UInt8, low.toNat ≤ b.toNat → b.toNat ≤ high.toNat →
        String.utf8EncodeChar (Char.ofNat (value * 64 + b.toNat % 64)) = seen ++ [b]) :
      Begun seen ⟨value, 1, low, high⟩
  | more {seen : List UInt8} {value missing : Nat} {low high : UInt8} (hlow : 0x80 ≤ low.toNat)
      (hseen : ∀ b ∈ seen, 0x80 ≤ b.toNat)
      (hnext : ∀ b : UInt8, low.toNat ≤ b.toNat → b.toNat ≤ high.toNat →
        Begun (seen ++ [b]) ⟨value * 64 + b.toNat % 64, missing + 1, 0x80, 0xBF⟩) :
      Begun seen ⟨value, missing + 2, low, high⟩

theorem Begun.low_le {seen : List UInt8} {p : Pending} (hp : Begun seen p) :
    0x80 ≤ p.low.toNat := by
  cases hp with
  | last hlow | more hlow => exact hlow

theorem Begun.seen_le {seen : List UInt8} {p : Pending} (hp : Begun seen p) :
    ∀ b ∈ seen, 0x80 ≤ b.toNat := by
  cases hp with
  | last _ hseen | more _ hseen => exact hseen

theorem begun_two {b : UInt8} (hb : 0xC2 ≤ b.toNat ∧ b.toNat ≤ 0xDF) :
    Begun [b] ⟨b.toNat % 32, 1, 0x80, 0xBF⟩ := by
  refine .last (Nat.le_refl _) (by simp; omega) fun k hlow hhigh => ?_
  exact encode_two hb ⟨hlow, hhigh⟩

theorem begun_three {b low high : UInt8} {value : Nat} (hvalue : value = b.toNat % 16)
    (hb : 0xE0 ≤ b.toNat ∧ b.toNat ≤ 0xEF)
    (hrange : 0x80 ≤ low.toNat ∧ (b.toNat = 0xE0 → 0xA0 ≤ low.toNat) ∧
      high.toNat ≤ 0xBF ∧ (b.toNat = 0xED → high.toNat ≤ 0x9F)) :
    Begun [b] ⟨value, 2, low, high⟩ := by
  rw [hvalue]
  refine .more hrange.1 (by simp; omega) fun k hklow hkhigh => ?_
  refine .last (Nat.le_refl _) (by simp; omega) fun l hllow hlhigh => ?_
  exact encode_three hb ⟨by omega, by omega⟩ ⟨hllow, hlhigh⟩ (by omega) (by omega)

theorem begun_four {b low high : UInt8} {value : Nat} (hvalue : value = b.toNat % 8)
    (hb : 0xF0 ≤ b.toNat ∧ b.toNat ≤ 0xF4)
    (hrange : 0x80 ≤ low.toNat ∧ (b.toNat = 0xF0 → 0x90 ≤ low.toNat) ∧
      high.toNat ≤ 0xBF ∧ (b.toNat = 0xF4 → high.toNat ≤ 0x8F)) :
    Begun [b] ⟨value, 3, low, high⟩ := by
  rw [hvalue]
  refine .more hrange.1 (by simp; omega) fun k hklow hkhigh => ?_
  refine .more (Nat.le_refl _) (by simp; omega) fun l hllow hlhigh => ?_
  have hl : 0x80 ≤ l.toNat := hllow
  refine .last (Nat.le_refl _) (by simp; omega) fun m hmlow hmhigh => ?_
  exact encode_four hb ⟨by omega, by omega⟩ ⟨hl, hlhigh⟩ ⟨hmlow, hmhigh⟩ (by omega) (by omega)

theorem begun_of_announced {b : UInt8} {p : Pending} (hannounced : announced b = some p) :
    Begun [b] p := by
  simp only [announced, UInt8.le_iff_toNat_le, ← UInt8.toNat_inj, UInt8.reduceToNat] at hannounced
  -- The machine names 0xE0, 0xED, 0xF0 and 0xF4 apart, as they bound the byte after them.
  split at hannounced
  · next hb =>
    cases hannounced
    exact begun_two hb
  repeat' split at hannounced
  all_goals cases hannounced
  iterate 3
    next => exact begun_three (by omega) (by omega) (by simp only [UInt8.reduceToNat]; omega)
  iterate 3
    next => exact begun_four (by omega) (by omega) (by simp only [UInt8.reduceToNat]; omega)

/-! ## Parts of bytes -/

/-- Bytes and the parts that they consist of: the encodings of characters, and malformed bytes,
none of which is ASCII. -/
inductive Parsed : List UInt8 → List (Option Char) → Prop
  | nil : Parsed [] []
  | char (c : Char) {bytes : List UInt8} {parts : List (Option Char)} (hrest : Parsed bytes parts) :
      Parsed (String.utf8EncodeChar c ++ bytes) (some c :: parts)
  | malformed {bad bytes : List UInt8} {parts : List (Option Char)}
      (hbad : ∀ b ∈ bad, 0x80 ≤ b.toNat) (hrest : Parsed bytes parts) :
      Parsed (bad ++ bytes) (none :: parts)

/-- The machine between characters, or after the bytes of an open one. -/
def Open : List UInt8 → Option Pending → Prop
  | seen, none => seen = []
  | seen, some p => Begun seen p

theorem open_nil : Open [] none := rfl

theorem Open.low_le {seen : List UInt8} {pending : Option Pending} (hopen : Open seen pending) :
    ∀ p ∈ pending, 0x80 ≤ p.low.toNat := by
  rintro p rfl
  exact Begun.low_le hopen

/-- One byte between characters: parts of what comes next, behind the bytes of the character it
leaves open, make parts of all bytes. -/
theorem parsed_begin (b : UInt8) : ∃ seen, Open seen (begin b).2 ∧
    ∀ bytes parts, Parsed (seen ++ bytes) parts → Parsed (b :: bytes) ((begin b).1 ++ parts) := by
  unfold begin
  split
  · next hascii =>
    rw [UInt8.lt_iff_toNat_lt] at hascii
    refine ⟨[], open_nil, fun bytes parts hparts => ?_⟩
    have hchar := hparts.char (asciiChar b)
    rwa [encode_one hascii] at hchar
  · next hascii =>
    rw [UInt8.lt_iff_toNat_lt] at hascii
    split
    · next p hannounced => exact ⟨[b], begun_of_announced hannounced, fun _ _ hparts => hparts⟩
    · have hbad : ∀ c ∈ [b], 0x80 ≤ c.toNat := by simpa using hascii
      exact ⟨[], open_nil, fun _ _ hparts => .malformed hbad hparts⟩

/-- One byte: as above, with the bytes of the character that was open before it. -/
theorem parsed_step {seen : List UInt8} {pending : Option Pending} (hopen : Open seen pending)
    (b : UInt8) : ∃ seen', Open seen' (step pending b).2 ∧
    ∀ bytes parts, Parsed (seen' ++ bytes) parts →
      Parsed (seen ++ b :: bytes) ((step pending b).1 ++ parts) := by
  cases pending with
  | none =>
      obtain rfl : seen = [] := hopen
      exact parsed_begin b
  | some p =>
      have hbegun : Begun seen p := hopen
      unfold step
      simp only [UInt8.le_iff_toNat_le]
      split
      · next hrange =>
        cases hbegun with
        | @last _ value _ _ hlow hseen hencode =>
            refine ⟨[], open_nil, fun bytes parts hparts => ?_⟩
            have hchar := hparts.char (Char.ofNat (value * 64 + b.toNat % 64))
            rw [hencode b hrange.1 hrange.2, List.append_assoc] at hchar
            exact hchar
        | more hlow hseen hnext =>
            refine ⟨seen ++ [b], hnext b hrange.1 hrange.2, fun bytes parts hparts => ?_⟩
            rwa [List.append_assoc] at hparts
      · obtain ⟨seen', hopen', hparsed⟩ := parsed_begin b
        exact ⟨seen', hopen', fun bytes parts hparts =>
          (hparsed bytes parts hparts).malformed hbegun.seen_le⟩

theorem partsAfter_cons (pending : Option Pending) (b : UInt8) (rest : List UInt8) :
    partsAfter pending (b :: rest) = (step pending b).1 ++ partsAfter (step pending b).2 rest := by
  rw [partsAfter]

theorem parsed_partsAfter {seen : List UInt8} {pending : Option Pending}
    (hopen : Open seen pending) (bytes : List UInt8) :
    Parsed (seen ++ bytes) (partsAfter pending bytes) := by
  induction bytes generalizing seen pending with
  | nil =>
      cases pending with
      | none =>
          obtain rfl : seen = [] := hopen
          exact .nil
      | some p => exact Parsed.nil.malformed (Begun.seen_le hopen)
  | cons b bytes ih =>
      obtain ⟨seen', hopen', hparsed⟩ := parsed_step hopen b
      rw [partsAfter_cons]
      exact hparsed bytes _ (ih hopen')

theorem parsed_parts (bytes : List UInt8) : Parsed bytes (parts bytes) :=
  parsed_partsAfter open_nil bytes

/-! ## Well-formed bytes -/

theorem Parsed.wellFormed {bytes : List UInt8} {parts : List (Option Char)}
    (hparsed : Parsed bytes parts) (hparts : none ∉ parts) : WellFormed bytes := by
  induction hparsed with
  | nil => exact ⟨[], rfl⟩
  | char c _ ih =>
      obtain ⟨text, rfl⟩ := ih fun hmem => hparts (List.mem_cons_of_mem _ hmem)
      exact ⟨c :: text, by rw [encode, encode, List.flatMap_cons]⟩
  | malformed => exact absurd List.mem_cons_self hparts

/-- Bytes that are no encoding of a text are decoded with replacements. -/
theorem replacement_mem_decodeLossy {bytes : List UInt8} (hbytes : ¬WellFormed bytes) :
    replacement ∈ decodeLossy bytes := by
  have hnone : none ∈ parts bytes := by
    by_contra hparts
    exact hbytes ((parsed_parts bytes).wellFormed hparts)
  exact List.mem_map.mpr ⟨none, hnone, rfl⟩

/-! ## ASCII characters -/

theorem Parsed.mem_of_ascii {bytes : List UInt8} {parts : List (Option Char)}
    (hparsed : Parsed bytes parts) {d : UInt8} (hd : d.toNat < 0x80)
    (hmem : some (asciiChar d) ∈ parts) : d ∈ bytes := by
  induction hparsed with
  | nil => cases hmem
  | char c _ ih =>
      rcases List.mem_cons.mp hmem with hc | hmem
      · cases hc
        rw [encode_one hd]
        exact List.mem_cons_self
      · exact List.mem_append_right _ (ih hmem)
  | malformed _ _ ih =>
      rcases List.mem_cons.mp hmem with hc | hmem
      · cases hc
      · exact List.mem_append_right _ (ih hmem)

theorem mem_of_asciiChar_mem {bytes : List UInt8} {d : UInt8} (hd : d.toNat < 0x80)
    (hmem : asciiChar d ∈ decodeLossy bytes) : d ∈ bytes := by
  obtain ⟨part, hpart, hchar⟩ := List.mem_map.mp hmem
  cases part with
  | none =>
      have hvalue : replacement.val.toNat = d.toNat := by rw [← toNat_asciiChar hd, ← hchar]; rfl
      have : replacement.val.toNat = 0xFFFD := rfl
      omega
  | some c =>
      obtain rfl : c = asciiChar d := hchar
      exact (parsed_parts bytes).mem_of_ascii hd hpart

theorem partsAfter_asciiByte {d : UInt8} (hd : d.toNat < 0x80) (rest : List UInt8) :
    partsAfter none (d :: rest) = some (asciiChar d) :: partsAfter none rest := by
  have hascii := partsAfter_ascii hd rest
  rwa [UInt8.ofNat_toNat] at hascii

/-- An ASCII byte ends what is open and is decoded alone. -/
theorem partsAfter_append_ascii {seen : List UInt8} {pending : Option Pending}
    (hopen : Open seen pending) {d : UInt8} (hd : d.toNat < 0x80) (front rest : List UInt8) :
    partsAfter pending (front ++ d :: rest) =
      partsAfter pending front ++ some (asciiChar d) :: partsAfter none rest := by
  induction front generalizing seen pending with
  | nil =>
      cases pending with
      | none => exact partsAfter_asciiByte hd rest
      | some p =>
          have hlow : 0x80 ≤ p.low.toNat := hopen.low_le p rfl
          have hrange : ¬(p.low ≤ d ∧ d ≤ p.high) := by
            rw [UInt8.le_iff_toNat_le]
            omega
          have hstep : step (some p) d = (none :: (step none d).1, (step none d).2) := if_neg hrange
          rw [List.nil_append, partsAfter_cons, hstep, List.cons_append, ← partsAfter_cons,
            partsAfter_asciiByte hd]
          rfl
  | cons b front ih =>
      obtain ⟨seen', hopen', -⟩ := parsed_step hopen b
      rw [List.cons_append, partsAfter_cons, ih hopen', partsAfter_cons, List.append_assoc]

theorem decodeLossy_append_ascii {d : UInt8} (hd : d.toNat < 0x80) (front rest : List UInt8) :
    decodeLossy (front ++ d :: rest) =
      decodeLossy front ++ asciiChar d :: decodeLossy rest := by
  rw [decodeLossy, parts, partsAfter_append_ascii open_nil hd, List.map_append,
    List.map_cons]
  rfl

/-! ## Separators -/

theorem decodeLossy_intercalate {d : UInt8} (hd : d.toNat < 0x80) (pieces : List (List UInt8)) :
    decodeLossy ([d].intercalate pieces) = [asciiChar d].intercalate (pieces.map decodeLossy) := by
  induction pieces with
  | nil => rfl
  | cons piece pieces ih =>
      cases pieces with
      | nil => simp
      | cons next pieces =>
          rw [List.intercalate_cons_cons, List.append_assoc, List.singleton_append,
            decodeLossy_append_ascii hd, ih]
          simp [List.intercalate_cons_cons]

/-- Decoding commutes with splitting at an ASCII character. -/
theorem splitOn_decodeLossy {d : UInt8} (hd : d.toNat < 0x80) (bytes : List UInt8) :
    (decodeLossy bytes).splitOn (asciiChar d) = (bytes.splitOn d).map decodeLossy := by
  have hpieces : ∀ piece ∈ (bytes.splitOn d).map decodeLossy, asciiChar d ∉ piece := by
    intro text htext hmem
    obtain ⟨piece, hpiece, rfl⟩ := List.mem_map.mp htext
    exact Text.not_mem_of_mem_splitOn hpiece (mem_of_asciiChar_mem hd hmem)
  have hnonempty : (bytes.splitOn d).map decodeLossy ≠ [] :=
    mt List.map_eq_nil_iff.mp (List.splitOn_ne_nil d bytes)
  calc
    (decodeLossy bytes).splitOn (asciiChar d) =
        (decodeLossy ([d].intercalate (bytes.splitOn d))).splitOn (asciiChar d) := by
      rw [List.intercalate_splitOn]
    _ = ([asciiChar d].intercalate ((bytes.splitOn d).map decodeLossy)).splitOn (asciiChar d) := by
      rw [decodeLossy_intercalate hd]
    _ = (bytes.splitOn d).map decodeLossy :=
      List.splitOn_intercalate _ hpieces hnonempty

/-- Decoding commutes with cutting at an ASCII character. -/
theorem takeWhile_decodeLossy {d : UInt8} (hd : d.toNat < 0x80) (bytes : List UInt8) :
    (decodeLossy bytes).takeWhile (· != asciiChar d) =
      decodeLossy (bytes.takeWhile (· != d)) := by
  by_cases hmem : d ∈ bytes
  · obtain ⟨front, rest, rfl, hfront⟩ := List.eq_append_cons_of_mem hmem
    rw [decodeLossy_append_ascii hd, Text.takeWhile_ne_append_cons hfront,
      Text.takeWhile_ne_append_cons fun h => hfront (mem_of_asciiChar_mem hd h)]
  · rw [Text.takeWhile_ne_eq_self hmem,
      Text.takeWhile_ne_eq_self fun h => hmem (mem_of_asciiChar_mem hd h)]

end RewardPlot.Utf8
