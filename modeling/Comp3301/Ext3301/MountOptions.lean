import Mathlib.Data.List.TakeWhile
import Comp3301.Ext3301.Mounts

/-!
# Mount options: the key as a number, and remounts that fail

* `key=%x` takes a hexadecimal number, with or without `0x`. `match_int` converts it with base 0: to
  read a number without `0x` it takes base 8 or 10, and stops at the first character that is not a
  digit there. `keyIsHex_iff` says for which texts the result is the same modulo 256.
* `ext2_remount` restores the options and the flags when it fails, and leaves the key as the option
  string has set it (`remount_restores_iff`).
-/

namespace Comp3301.Ext3301

/-! ## Numbers -/

/-- A digit of base `base`. -/
def digitBelow (base : ℕ) (c : Char) : Bool := (xdigit c).any (· < base)

/-- The number `r` with digits behind it. -/
def valueFrom (base r : ℕ) (digits : List Char) : ℕ :=
  digits.foldl (fun n c => n * base + (xdigit c).getD 0) r

/-- The number that the digits are. -/
def valueOf (base : ℕ) (digits : List Char) : ℕ := valueFrom base 0 digits

lemma valueFrom_congr {n r r' : ℕ} (h : r ≡ r' [MOD n]) (base : ℕ) (digits : List Char) :
    valueFrom base r digits ≡ valueFrom base r' digits [MOD n] := by
  induction digits generalizing r r' with
  | nil => exact h
  | cons c cs ih => exact ih ((h.mul_right base).add_right _)

/-- `simple_strtoul` reads the leading digits, modulo the size of an `unsigned long`. -/
lemma strtoulLoop_eq (base r : ℕ) (s : List Char) :
    (strtoulLoop base r s).2 = s.dropWhile (digitBelow base) ∧
      (strtoulLoop base r s).1 ≡ valueFrom base r (s.takeWhile (digitBelow base)) [MOD 2 ^ 64] := by
  induction s generalizing r with
  | nil => exact ⟨rfl, Nat.ModEq.refl _⟩
  | cons c cs ih =>
      rw [strtoulLoop]
      rcases hc : xdigit c with _ | v
      · have hnot : ¬ digitBelow base c := by simp [digitBelow, hc]
        rw [List.dropWhile_cons_of_neg hnot, List.takeWhile_cons_of_neg hnot]
        exact ⟨rfl, Nat.ModEq.refl _⟩
      · by_cases hv : base ≤ v
        · have hnot : ¬ digitBelow base c := by simp [digitBelow, hc, hv]
          rw [List.dropWhile_cons_of_neg hnot, List.takeWhile_cons_of_neg hnot]
          simp only [if_pos hv, true_and]
          exact Nat.ModEq.refl _
        · have hdigit : digitBelow base c := by simpa [digitBelow, hc] using hv
          rw [List.dropWhile_cons_of_pos hdigit, List.takeWhile_cons_of_pos hdigit]
          simp only [if_neg hv]
          obtain ⟨hrest, hvalue⟩ := ih ((r * base + v) % 2 ^ 64)
          refine ⟨hrest, hvalue.trans ?_⟩
          have hstep : valueFrom base r (c :: cs.takeWhile (digitBelow base)) =
              valueFrom base (r * base + v) (cs.takeWhile (digitBelow base)) := by
            rw [valueFrom, List.foldl_cons, hc, Option.getD_some, valueFrom]
          rw [hstep]
          exact valueFrom_congr (Nat.mod_modEq _ _) _ _

/-! ## The key option -/

/-- A hexadecimal number as it may stand behind `key=`: digits, possibly with a mark before them. -/
structure HexText where
  mark : List Char
  digits : List Char
  mark_mem : mark ∈ [[], ['0', 'x'], ['0', 'X']]
  ne_nil : digits ≠ []
  hex : ∀ c ∈ digits, (xdigit c).isSome

namespace HexText

/-- The text. -/
def text (h : HexText) : List Char := h.mark ++ h.digits

/-- The number in base 16. -/
def value (h : HexText) : ℕ := valueOf 16 h.digits

/-- The base that base 0 stands for when there is no mark. -/
def base (h : HexText) : ℕ := if h.digits.head? = some '0' then 8 else 10

/-- The leading digits of that base. -/
def leading (h : HexText) : List Char := h.digits.takeWhile (digitBelow h.base)

end HexText

/-- The string `key=` with the text behind it is accepted and sets the key to the number in
base 16, modulo 256. -/
def KeyIsHex (cfg : Config) (h : HexText) : Prop :=
  ∀ s, parseOptions cfg (some (['k', 'e', 'y', '='] ++ h.text)) s =
    (true, { s with key := UInt8.ofNat h.value })

/-- The value of a hexadecimal digit. -/
lemma xdigit_lt {c : Char} {v : ℕ} (h : xdigit c = some v) : v < 16 := by
  unfold xdigit at h
  split_ifs at h with hdec hlower hupper
  · have hle : c.toNat ≤ '9'.toNat := hdec.2
    have hval : '9'.toNat - '0'.toNat = 9 := rfl
    have hv := Option.some.inj h
    omega
  · have hle : c.toNat ≤ 'f'.toNat := hlower.2
    have hval : 'f'.toNat - 'a'.toNat = 5 := rfl
    have hv := Option.some.inj h
    omega
  · have hle : c.toNat ≤ 'F'.toNat := hupper.2
    have hval : 'F'.toNat - 'A'.toNat = 5 := rfl
    have hv := Option.some.inj h
    omega

lemma digitBelow_sixteen (c : Char) : digitBelow 16 c = (xdigit c).isSome := by
  unfold digitBelow
  rcases hc : xdigit c with _ | v
  · rfl
  · simpa using xdigit_lt hc

/-- Digits do not look like a mark. -/
lemma hasHexMark_of_hex {digits : List Char} (h : ∀ c ∈ digits, (xdigit c).isSome) :
    hasHexMark digits = false := by
  unfold hasHexMark
  split
  · exact absurd (h 'x' (by simp)) (by decide)
  · exact absurd (h 'X' (by simp)) (by decide)
  · rfl

namespace HexText

variable (h : HexText)

lemma takeWhile_digits : h.digits.takeWhile (digitBelow 16) = h.digits := by
  rw [List.takeWhile_eq_self_iff]
  intro c hc
  rw [digitBelow_sixteen]
  exact h.hex c hc

/-- Reading the digits in base 16. -/
lemma strtoulLoop_digits : (strtoulLoop 16 0 h.digits).2 = [] ∧
    (strtoulLoop 16 0 h.digits).1 ≡ h.value [MOD 2 ^ 64] := by
  obtain ⟨hrest, hvalue⟩ := strtoulLoop_eq 16 0 h.digits
  rw [h.takeWhile_digits] at hvalue
  rw [hrest, List.dropWhile_eq_nil_iff]
  exact ⟨List.takeWhile_eq_self_iff.mp h.takeWhile_digits, hvalue⟩

/-- A text with a mark. -/
lemma hasHexMark_text (hmark : h.mark ≠ []) :
    hasHexMark h.text = true ∧ h.text.drop 2 = h.digits ∧ h.text.length = h.digits.length + 2 := by
  have hmem := h.mark_mem
  simp only [List.mem_cons, hmark, List.not_mem_nil, or_false, false_or] at hmem
  unfold text
  rcases hmem with hm | hm <;> rw [hm] <;> exact ⟨rfl, rfl, rfl⟩

/-- In base 16 the whole text is a number. -/
lemma strtoul_sixteen : (strtoul 16 h.text).2 = [] := by
  unfold strtoul
  by_cases hmark : h.mark = []
  · have htext : h.text = h.digits := by rw [text, hmark, List.nil_append]
    simp only [htext, hasHexMark_of_hex h.hex, Bool.false_eq_true, and_false, if_false]
    exact h.strtoulLoop_digits.1
  · obtain ⟨hhas, hdrop, -⟩ := h.hasHexMark_text hmark
    simp only [hhas, hdrop]
    exact h.strtoulLoop_digits.1

lemma text_ne_nil : h.text ≠ [] := fun hnil => h.ne_nil (List.append_eq_nil_iff.mp hnil).2

/-- With a mark, `match_int` reads the number in base 16. -/
lemma matchInt_marked (hmark : h.mark ≠ []) :
    ∃ v, matchInt h.text = some v ∧ v ≡ h.value [MOD 2 ^ 64] := by
  obtain ⟨hhas, hdrop, hlen⟩ := h.hasHexMark_text hmark
  have hhead : (h.digits.head?.bind xdigit).isSome := by
    rw [List.head?_eq_some_head h.ne_nil]
    exact h.hex _ (List.head_mem h.ne_nil)
  have hbase : guessBase h.text = 16 := by
    unfold guessBase
    rw [hdrop, if_pos ⟨hhas, hhead⟩]
  have hread : strtoul 0 h.text = strtoulLoop 16 0 h.digits := by
    unfold strtoul
    simp only [if_true, hbase, hhas, hdrop, and_self]
  refine ⟨(strtoulLoop 16 0 h.digits).1, ?_, h.strtoulLoop_digits.2⟩
  unfold matchInt
  simp only [hread, h.strtoulLoop_digits.1, List.length_nil]
  exact if_neg (by omega)

/-- Without a mark, it reads the leading digits in base 8 or 10, if there are any. -/
lemma matchInt_unmarked (hmark : h.mark = []) :
    if h.leading = [] then matchInt h.text = none
    else ∃ v, matchInt h.text = some v ∧ v ≡ valueOf h.base h.leading [MOD 2 ^ 64] := by
  have htext : h.text = h.digits := by rw [text, hmark, List.nil_append]
  have hbase : guessBase h.digits = h.base := by
    unfold guessBase base
    rw [hasHexMark_of_hex h.hex, if_neg (by simp)]
  have hread : strtoul 0 h.text = strtoulLoop h.base 0 h.digits := by
    unfold strtoul
    simp only [if_true, htext, hbase, hasHexMark_of_hex h.hex, Bool.false_eq_true, and_false,
      if_false]
  obtain ⟨hrest, hvalue⟩ := strtoulLoop_eq h.base 0 h.digits
  have hlen : h.leading.length + (strtoulLoop h.base 0 h.digits).2.length = h.digits.length := by
    rw [hrest, leading, ← List.length_append, List.takeWhile_append_dropWhile]
  unfold matchInt
  rw [hread, htext]
  split_ifs with hnil
  · rw [hnil, List.length_nil, Nat.zero_add] at hlen
    simp only [hlen, if_true]
  · have hpos : 0 < h.leading.length := List.length_pos_of_ne_nil hnil
    exact ⟨_, if_neg (by omega), hvalue⟩

end HexText

/-- A pattern accepts strings that start like its text only. -/
lemma Pattern.not_accepts {p : Pattern} {c : Char} {cs : List Char}
    (h : p.text.toList.head? ≠ some c ∧ p.text.toList ≠ []) : p.accepts (c :: cs) = false := by
  rcases htext : p.text.toList with _ | ⟨d, ds⟩
  · exact absurd htext h.2
  · have hne : ¬ d = c := by
      intro heq
      rw [htext, heq] at h
      exact h.1 rfl
    unfold accepts
    rcases p.number with _ | base
    · simp [htext, Ne.symm hne]
    · simp [htext, hne]

/-- The option is recognised. -/
lemma matchToken_key (h : HexText) :
    matchToken (['k', 'e', 'y', '='] ++ h.text) = some (.key, h.text) := by
  have hfind : tokens.find? (·.accepts (['k', 'e', 'y', '='] ++ h.text)) =
      some ⟨.key, "key=", some 16⟩ := by
    rw [List.find?_eq_some_iff_append]
    refine ⟨?_, tokens.dropLast, [], rfl, ?_⟩
    · have hkey : "key=".toList = ['k', 'e', 'y', '='] := rfl
      simp [Pattern.accepts, hkey, h.strtoul_sixteen, h.text_ne_nil]
    · -- no other text starts with a `k`
      intro p hp
      have hother : ∀ p ∈ tokens.dropLast, p.text.toList.head? ≠ some 'k' ∧ p.text.toList ≠ [] := by
        decide
      rw [List.cons_append, Pattern.not_accepts (hother p hp)]
      rfl
  rw [matchToken, hfind]
  rfl

/-- What the option does. -/
lemma parseOptions_keyText (cfg : Config) (h : HexText) (s : Parser) :
    parseOptions cfg (some (['k', 'e', 'y', '='] ++ h.text)) s =
      match matchInt h.text with
      | none => (false, s)
      | some v => (true, { s with key := UInt8.ofNat v }) := by
  have hcomma : ',' ∉ ['k', 'e', 'y', '='] ++ h.text := by
    have hmark : ',' ∉ h.mark := by
      have hall : ∀ m ∈ [[], ['0', 'x'], ['0', 'X']], ',' ∉ m := by decide
      exact hall h.mark h.mark_mem
    have hdigits : ',' ∉ h.digits := fun hmem => absurd (h.hex ',' hmem) (by decide)
    simp [HexText.text, hmark, hdigits]
  have hsplit : (['k', 'e', 'y', '='] ++ h.text).splitOn ',' =
      [['k', 'e', 'y', '='] ++ h.text] := by
    refine List.splitOnP_eq_singleton ?_
    intro c hc
    exact beq_false_of_ne (ne_of_mem_of_not_mem hc hcomma)
  simp only [parseOptions, hsplit, parsePieces, applyPiece, matchToken_key, Option.bind_some,
    applyToken]
  rw [if_neg (by simp)]
  cases matchInt h.text <;> rfl

lemma ofNat_eq_iff (v w : ℕ) : UInt8.ofNat v = UInt8.ofNat w ↔ v ≡ w [MOD 256] := by
  rw [← UInt8.toNat_inj, UInt8.toNat_ofNat', UInt8.toNat_ofNat']
  rfl

/-- **Which keys are read as hexadecimal numbers**: those with a mark, and those whose leading
digits, in base 8 if the first one is a zero and in base 10 otherwise, come to the same modulo
256. -/
theorem keyIsHex_iff (cfg : Config) (h : HexText) :
    KeyIsHex cfg h ↔
      h.mark ≠ [] ∨ (h.leading ≠ [] ∧ valueOf h.base h.leading ≡ h.value [MOD 256]) := by
  have hdvd : 256 ∣ 2 ^ 64 := by decide
  simp only [KeyIsHex, parseOptions_keyText]
  by_cases hmark : h.mark = []
  · have hread := h.matchInt_unmarked hmark
    split_ifs at hread with hnil
    · have hfail : ¬ ∀ s : Parser, (false, s) = (true, { s with key := UInt8.ofNat h.value }) :=
        fun hall => absurd (congrArg Prod.fst (hall ⟨⟨fun _ => false, 0, 0⟩, 0⟩)) Bool.false_ne_true
      simp only [hread, hmark, hnil]
      exact iff_of_false hfail (by simp)
    · obtain ⟨v, hv, hvalue⟩ := hread
      have hvalue' : v ≡ valueOf h.base h.leading [MOD 256] := hvalue.of_dvd hdvd
      have hiff : UInt8.ofNat v = UInt8.ofNat h.value ↔
          valueOf h.base h.leading ≡ h.value [MOD 256] := by
        rw [ofNat_eq_iff]
        exact ⟨hvalue'.symm.trans, hvalue'.trans⟩
      simp only [hv, hmark, hnil, ne_eq, not_true_eq_false, not_false_eq_true, false_or, true_and,
        ← hiff]
      constructor
      · intro hall
        have hkey := congrArg (fun r => r.2.key) (hall ⟨⟨fun _ => false, 0, 0⟩, 0⟩)
        exact hkey
      · intro hkey s
        rw [hkey]
  · obtain ⟨v, hv, hvalue⟩ := h.matchInt_marked hmark
    refine iff_of_true ?_ (Or.inl hmark)
    intro s
    simp only [hv, (ofNat_eq_iff v h.value).mpr (hvalue.of_dvd hdvd)]

/-- `10`. -/
def plain10 : HexText := ⟨[], ['1', '0'], by decide, by decide, by simp [xdigit]⟩

/-- `key=10` sets the key to 10. -/
theorem not_keyIsHex_plain10 :
    plain10.value = 16 ∧ ¬ KeyIsHex plainConfig plain10 ∧
      (parseOptions plainConfig (some (['k', 'e', 'y', '='] ++ plain10.text))
        ⟨⟨fun _ => false, 0, 0⟩, 0⟩).2.key = 10 := by
  have hkey : (parseOptions plainConfig (some (['k', 'e', 'y', '='] ++ plain10.text))
      ⟨⟨fun _ => false, 0, 0⟩, 0⟩).2.key = 10 := by decide
  refine ⟨rfl, fun h => ?_, hkey⟩
  rw [h ⟨⟨fun _ => false, 0, 0⟩, 0⟩] at hkey
  exact absurd hkey (by decide)

/-! ## Remounts that fail -/

/-- The options and the flags are restored when a remount fails; the key is what the option string
has set. -/
lemma remount_of_error {cfg : Config} {env : RemountEnv} {rdonly : Bool}
    {options : Option (List Char)} {sb : SuperBlock} {key : UInt8}
    (h : (remount cfg env rdonly options sb key).1 < 0) :
    (remount cfg env rdonly options sb key).2 = (sb, (finalKey options).getD key) := by
  have hkey := parseOptions_key cfg options ⟨sb.opts, key⟩
  revert h
  unfold remount
  rw [← hkey]
  simp only
  split_ifs <;> intro h <;> first | rfl | exact absurd h (lt_irrefl 0)

/-- **When a remount that fails leaves everything as it was**, for every option string. -/
theorem remount_restores_iff {cfg : Config} {env : RemountEnv} {rdonly : Bool}
    {options : Option (List Char)} {sb : SuperBlock} {key : UInt8}
    (h : (remount cfg env rdonly options sb key).1 < 0) :
    (remount cfg env rdonly options sb key).2 = (sb, key) ↔
      ∀ k, finalKey options = some k → k = key := by
  rw [remount_of_error h, Prod.mk.injEq, and_iff_right rfl]
  rcases finalKey options with _ | k
  · simp
  · simp

/-- A file system that is mounted without options. -/
def plainSuper : SuperBlock := ⟨⟨fun _ => false, 0, 0⟩, false, false⟩

/-- Nothing prevents a remount. -/
def RemountEnv.good : RemountEnv := ⟨false, true, false, false, true⟩

/-- An option before the one that is not known is taken back. -/
theorem remount_restores_debug :
    (remount plainConfig RemountEnv.good false (some "debug,foo".toList) plainSuper 0).2 =
      (plainSuper, 0) := by
  have hfail : (remount plainConfig RemountEnv.good false (some "debug,foo".toList)
      plainSuper 0).1 < 0 := by decide
  have hnone : finalKey (some "debug,foo".toList) = none := by decide
  rw [remount_restores_iff hfail, hnone]
  intro k hk
  cases hk

/-- The key is not. -/
theorem not_remount_restores_key :
    (remount plainConfig RemountEnv.good false (some "key=0x12,foo".toList) plainSuper 0).1 < 0 ∧
      (remount plainConfig RemountEnv.good false (some "key=0x12,foo".toList) plainSuper 0).2 ≠
        (plainSuper, 0) := by
  refine ⟨by decide, fun h => ?_⟩
  have hkey := congrArg Prod.snd h
  exact absurd hkey (by decide)

end Comp3301.Ext3301
