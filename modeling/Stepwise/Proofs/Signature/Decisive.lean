import Mathlib.Tactic.Common
import Stepwise.Proofs.Signature.Injective
import Stepwise.Signature.Hmac

/-!
# What a signature decides

A payload without doubles is determined by the text that it is signed through. So a signature is
accepted for another payload only if the digest does not tell two messages apart. A payload has a
signature unless a whole number in it has too many digits or half of a surrogate pair stands in one
of its texts. Nothing is used of the digest, so all of this is said of an arbitrary one.
-/

namespace Stepwise.Signature

open Text

/-- The signature of a payload under a secret, made with a given keyed digest. -/
def signWith (digest : List UInt8 → List UInt8 → List UInt8) (payload : Payload)
    (secret : List Point) : Except Fault String := do
  let key ← encode secret
  let message ← encode (← canonical payload)
  return String.ofList (hexOfBytes (digest key message))

/-- Whether a signature is the one that a given keyed digest makes. -/
def verifyWith (digest : List UInt8 → List UInt8 → List UInt8) (payload : Payload)
    (secret signature : List Point) : Except Fault Bool := do
  let expected ← signWith digest payload secret
  let given ← encode signature
  return bytesOfText expected == given

theorem hex_two_inj {m n : Nat} (hm : m < 256) (hn : n < 256)
    (h : Text.hex 2 m = Text.hex 2 n) : m = n := by
  have hdigit {i j : Nat} (hij : Text.hexDigit (i % 16) = Text.hexDigit (j % 16)) :
      i % 16 = j % 16 := by
    have hi := Json.hexValue?_hexDigit (i % 16) (Nat.mod_lt _ (by decide))
    rw [hij, Json.hexValue?_hexDigit (j % 16) (Nat.mod_lt _ (by decide))] at hi
    exact (Option.some.inj hi).symm
  simp only [Text.hex, List.nil_append, List.cons_append, List.cons.injEq, and_true] at h
  have hhigh := hdigit h.1
  have hlow := hdigit h.2
  omega

/-- Different bytes have different digits. -/
theorem hexOfBytes_inj {bytes bytes' : List UInt8} (h : hexOfBytes bytes = hexOfBytes bytes') :
    bytes = bytes' := by
  induction bytes generalizing bytes' with
  | nil =>
    cases bytes' with
    | nil => rfl
    | cons b rest => cases h
  | cons b rest ih =>
    cases bytes' with
    | nil => cases h
    | cons b' rest' =>
      unfold hexOfBytes at h
      rw [List.flatMap_cons, List.flatMap_cons] at h
      obtain ⟨hb, hrest⟩ := List.append_inj h (by simp)
      have hsame : b = b' := UInt8.toNat_inj.mp (hex_two_inj b.toNat_lt b'.toNat_lt hb)
      rw [hsame, ih hrest]

theorem bytesOfText_inj {s t : String} (h : bytesOfText s = bytesOfText t) : s = t := by
  unfold bytesOfText at h
  have hbytes : s.toUTF8 = t.toUTF8 := ByteArray.ext (Array.toList_inj.mp h)
  exact String.toByteArray_inj.mp hbytes

/-! ## What can be encoded -/

theorem isPaired_append (s t : List Point) : isPaired (s ++ t) = (isPaired s && isPaired t) :=
  List.all_append

theorem isPaired_cons (p : Point) (s : List Point) :
    isPaired (p :: s) = (p.char?.isSome && isPaired s) := rfl

@[simp] theorem isPaired_map_char (s : List Char) : isPaired (s.map .char) = true := by
  simp [isPaired, Point.char?]

@[simp] theorem isPaired_points (s : String) : isPaired (points s) = true := isPaired_map_char _

@[simp] theorem filterMap_char?_map (s : List Char) : (s.map .char).filterMap Point.char? = s := by
  rw [List.filterMap_map]
  exact List.filterMap_some

/-- A text without halves of surrogate pairs is made of characters. -/
theorem map_filterMap_char? {s : List Point} (h : isPaired s = true) :
    (s.filterMap Point.char?).map .char = s := by
  induction s with
  | nil => rfl
  | cons p s ih =>
    rw [isPaired_cons, Bool.and_eq_true] at h
    cases p with
    | char c => exact congrArg (.char c :: ·) (ih h.2)
    | half n => cases h.1

theorem points_injective : Function.Injective points :=
  fun _ _ h => String.toList_injective (Payload.map_char_injective h)

theorem encode_points (s : String) : encode (points s) = .ok (bytesOfText s) := by
  rw [encode, if_pos (isPaired_points s), points, filterMap_char?_map, String.ofList_toList]

/-- What can be encoded is the points of a string, which stand for its bytes. -/
theorem encode_eq_ok_iff {s : List Point} {bytes : List UInt8} :
    encode s = .ok bytes ↔ ∃ t, s = points t ∧ bytes = bytesOfText t := by
  constructor
  · intro h
    unfold encode at h
    split_ifs at h with hpaired
    refine ⟨String.ofList (s.filterMap Point.char?), ?_, (Except.ok.inj h).symm⟩
    rw [points, String.toList_ofList, map_filterMap_char? hpaired]
  · rintro ⟨t, rfl, rfl⟩
    exact encode_points t

theorem exists_encode_iff {s : List Point} :
    (∃ bytes, encode s = .ok bytes) ↔ isPaired s = true := by
  unfold encode
  split_ifs with h
  · exact iff_of_true ⟨_, rfl⟩ h
  · exact iff_of_false nofun h

namespace Payload

mutual

/-- No half of a surrogate pair is in a text or a name of the payload. -/
def isPaired : Payload → Bool
  | .text s => Text.isPaired s
  | .list items => pairedItems items
  | .object fields => pairedFields fields
  | _ => true

/-- No half of a surrogate pair is in the items. -/
def pairedItems : List Payload → Bool
  | [] => true
  | payload :: rest => isPaired payload && pairedItems rest

/-- No half of a surrogate pair is in the fields. -/
def pairedFields : List (List Point × Payload) → Bool
  | [] => true
  | (name, payload) :: rest => Text.isPaired name && isPaired payload && pairedFields rest

end

theorem isPaired_escape (p : Point) : Text.isPaired (escape p) = p.char?.isSome := by
  cases p with
  | char c => exact isPaired_map_char _
  | half n => rfl

theorem isPaired_writeText (s : List Point) : Text.isPaired (writeText s) = Text.isPaired s := by
  have hbody : Text.isPaired (s.flatMap escape) = Text.isPaired s := by
    induction s with
    | nil => rfl
    | cons p s ih => rw [List.flatMap_cons, isPaired_append, isPaired_escape, ih, isPaired_cons]
  rw [writeText, isPaired_append, isPaired_cons, hbody]
  exact Bool.and_true _

theorem isPaired_joinWith (rows : List (List Point)) :
    Text.isPaired (joinWith [.char ','] rows) = rows.all Text.isPaired := by
  induction rows with
  | nil => rfl
  | cons row rest ih =>
    cases rest with
    | nil => simp [joinWith]
    | cons next rest =>
      rw [Json.joinWith_cons_cons, isPaired_append, isPaired_append, ih, List.all_cons]
      rfl

mutual

/-- The text of a payload can be encoded if and only if its texts and names can. -/
theorem isPaired_write : ∀ p : Payload, Text.isPaired p.write = p.isPaired
  | .null => rfl
  | .bool true => rfl
  | .bool false => rfl
  | .int _ => isPaired_map_char _
  | .double _ => isPaired_map_char _
  | .text s => isPaired_writeText s
  | .list items => by
    rw [write, isPaired_append, isPaired_cons, isPaired_joinWith, all_isPaired_writeItems items]
    exact Bool.and_true _
  | .object fields => by
    rw [write, isPaired_append, isPaired_cons, isPaired_joinWith, all_isPaired_writeFields fields]
    exact Bool.and_true _

theorem all_isPaired_writeItems :
    ∀ items : List Payload, (writeItems items).all Text.isPaired = pairedItems items
  | [] => rfl
  | p :: rest => by
    rw [writeItems, List.all_cons, isPaired_write p, all_isPaired_writeItems rest, pairedItems]

theorem all_isPaired_writeFields : ∀ fields : List (List Point × Payload),
    (writeFields fields).all Text.isPaired = pairedFields fields
  | [] => rfl
  | (name, p) :: rest => by
    rw [writeFields, List.all_cons, isPaired_append, isPaired_cons, isPaired_writeText,
      isPaired_write p, all_isPaired_writeFields rest, pairedFields]
    rfl

end

end Payload

/-! ## Signatures -/

variable {digest : List UInt8 → List UInt8 → List UInt8} {p q : Payload} {secret : List Point}

theorem canonical_eq_ok_iff {text : List Point} :
    canonical p = .ok text ↔ p.isShort = true ∧ p.write = text := by
  unfold canonical
  split_ifs with h
  · simp [h]
  · simp [h]

/-- The payload can be signed under the secret: no whole number in it is too long, and all texts can
be encoded. -/
def CanSign (p : Payload) (secret : List Point) : Prop :=
  p.isShort = true ∧ p.isPaired = true ∧ isPaired secret = true

instance (p : Payload) (secret : List Point) : Decidable (CanSign p secret) :=
  inferInstanceAs (Decidable (_ ∧ _))

/-- A signature is the digest of the bytes of the text under those of the secret. -/
theorem signWith_eq_ok_iff {signature : String} :
    signWith digest p secret = .ok signature ↔
      ∃ key message, encode secret = .ok key ∧ canonical p >>= encode = .ok message ∧
        signature = String.ofList (hexOfBytes (digest key message)) := by
  unfold signWith
  cases hkey : encode secret with
  | error fault => simp [bind, Except.bind]
  | ok key =>
    show (canonical p >>= fun text => encode text >>= _) = _ ↔ _
    rw [← bind_assoc]
    cases hmessage : canonical p >>= encode with
    | error fault => simp [bind, Except.bind]
    | ok message => simp [bind, Except.bind, pure, Except.pure, eq_comm]

theorem exists_message_iff :
    (∃ message, canonical p >>= encode = .ok message) ↔
      p.isShort = true ∧ p.isPaired = true := by
  unfold canonical
  split_ifs with hshort
  · show (∃ message, encode p.write = .ok message) ↔ _
    rw [exists_encode_iff, Payload.isPaired_write]
    simp [hshort]
  · exact iff_of_false nofun fun h => hshort h.1

theorem exists_signWith_iff (digest : List UInt8 → List UInt8 → List UInt8) :
    (∃ signature, signWith digest p secret = .ok signature) ↔ CanSign p secret := by
  unfold CanSign
  rw [← and_assoc, ← exists_message_iff, ← exists_encode_iff]
  constructor
  · rintro ⟨signature, h⟩
    obtain ⟨key, message, hkey, hmessage, _⟩ := signWith_eq_ok_iff.mp h
    exact ⟨⟨message, hmessage⟩, key, hkey⟩
  · rintro ⟨⟨message, hmessage⟩, key, hkey⟩
    exact ⟨_, signWith_eq_ok_iff.mpr ⟨key, message, hkey, hmessage, rfl⟩⟩

/-- What is accepted is the one signature. -/
theorem verifyWith_eq_ok_true_iff {given : List Point} :
    verifyWith digest p secret given = .ok true ↔
      ∃ signature, signWith digest p secret = .ok signature ∧ given = points signature := by
  unfold verifyWith
  cases hsign : signWith digest p secret with
  | error fault => simp [bind, Except.bind]
  | ok expected =>
    show (encode given >>= fun bytes => pure (bytesOfText expected == bytes)) = _ ↔ _
    constructor
    · intro h
      cases hgiven : encode given with
      | error fault =>
        rw [hgiven] at h
        cases h
      | ok bytes =>
        rw [hgiven] at h
        obtain ⟨t, rfl, rfl⟩ := encode_eq_ok_iff.mp hgiven
        have hbytes : (bytesOfText expected == bytesOfText t) = true := Except.ok.inj h
        rw [bytesOfText_inj (beq_iff_eq.mp hbytes)]
        exact ⟨t, rfl, rfl⟩
    · rintro ⟨signature, hok, rfl⟩
      cases hok
      rw [encode_points]
      exact congrArg Except.ok (beq_self_eq_true _)

/-- Where there is no signature, there is no answer either. -/
theorem verifyWith_of_not_canSign (digest : List UInt8 → List UInt8 → List UInt8)
    (h : ¬ CanSign p secret) (given : List Point) :
    ∃ fault, verifyWith digest p secret given = .error fault := by
  cases hsign : signWith digest p secret with
  | error fault =>
    refine ⟨fault, ?_⟩
    unfold verifyWith
    rw [hsign]
    rfl
  | ok signature => exact absurd ((exists_signWith_iff digest).mp ⟨signature, hsign⟩) h

/-- Payloads without doubles that are signed through one text are one. -/
theorem canonical_inj (hp : p.Exact) (hq : q.Exact) {text : List Point}
    (h : canonical p = .ok text) (h' : canonical q = .ok text) : p = q :=
  Payload.write_inj hp hq
    ((canonical_eq_ok_iff.mp h).2.trans (canonical_eq_ok_iff.mp h').2.symm)

/-- Payloads without doubles that have one message are one. -/
theorem message_inj (hp : p.Exact) (hq : q.Exact) {message : List UInt8}
    (h : canonical p >>= encode = .ok message) (h' : canonical q >>= encode = .ok message) :
    p = q := by
  have hread {p : Payload} (h : canonical p >>= encode = .ok message) :
      ∃ t, canonical p = .ok (points t) ∧ message = bytesOfText t := by
    cases htext : canonical p with
    | error fault =>
      rw [htext] at h
      cases h
    | ok text =>
      rw [htext] at h
      obtain ⟨t, rfl, ht⟩ := encode_eq_ok_iff.mp h
      exact ⟨t, rfl, ht⟩
  obtain ⟨t, ht, rfl⟩ := hread h
  obtain ⟨t', ht', hsame⟩ := hread h'
  rw [← bytesOfText_inj hsame] at ht'
  exact canonical_inj hp hq ht ht'

/-- A payload has a text if no whole number in it is too long, and the text determines a payload
without doubles. So a signature is accepted for another payload only if two messages have one
digest. If all texts can be encoded, exactly one signature is accepted, and otherwise there is no
answer at all. This is so for every keyed digest, and the one in use is such a digest. -/
theorem signature_decides (hp : p.Exact) (hq : q.Exact)
    (digest : List UInt8 → List UInt8 → List UInt8) (secret : List Point) :
    ((∃ text, canonical p = .ok text) ↔ p.isShort = true) ∧
    (∀ text, canonical p = .ok text → canonical q = .ok text → p = q) ∧
    (∀ signature, signWith digest p secret = .ok signature →
      verifyWith digest q secret (points signature) = .ok true → p ≠ q →
      ∃ key message message', encode secret = .ok key ∧ canonical p >>= encode = .ok message ∧
        canonical q >>= encode = .ok message' ∧ message ≠ message' ∧
        digest key message = digest key message') ∧
    (CanSign p secret → ∃! given, verifyWith digest p secret given = .ok true) ∧
    (¬ CanSign p secret → ∀ given, ∃ fault, verifyWith digest p secret given = .error fault) ∧
    sign = signWith keyedDigest ∧ verify = verifyWith keyedDigest := by
  refine ⟨?_, fun _ => canonical_inj hp hq, fun signature hsign haccepted hne => ?_,
    fun hcan => ?_, verifyWith_of_not_canSign digest, rfl, rfl⟩
  · simp [canonical_eq_ok_iff]
  · obtain ⟨signature', hsign', hpoints⟩ := verifyWith_eq_ok_true_iff.mp haccepted
    cases points_injective hpoints
    obtain ⟨key, message, hkey, hmessage, rfl⟩ := signWith_eq_ok_iff.mp hsign
    obtain ⟨key', message', hkey', hmessage', hdigest⟩ := signWith_eq_ok_iff.mp hsign'
    cases hkey.symm.trans hkey'
    refine ⟨key, message, message', hkey, hmessage, hmessage', ?_, ?_⟩
    · rintro rfl
      exact hne (message_inj hp hq hmessage hmessage')
    · exact hexOfBytes_inj (String.ofList_injective hdigest)
  · obtain ⟨signature, hsign⟩ := (exists_signWith_iff digest).mpr hcan
    refine ⟨points signature, verifyWith_eq_ok_true_iff.mpr ⟨signature, hsign, rfl⟩, ?_⟩
    intro given hgiven
    obtain ⟨signature', hsign', rfl⟩ := verifyWith_eq_ok_true_iff.mp hgiven
    cases hsign.symm.trans hsign'
    rfl

/-- A list with the text `1` and the number `1` in it, and one with the text `1,1`: the signatures
are told apart by every digest that tells the two messages apart, and each list has one. -/
theorem signature_decides_lists :
    let p := Payload.list [.text (points "1"), .int 1]
    let q := Payload.list [.text (points "1,1")]
    canonical p = .ok (points "[\"1\",1]") ∧ canonical q = .ok (points "[\"1,1\"]") ∧
    ∀ digest : List UInt8 → List UInt8 → List UInt8,
      (∃! given, verifyWith digest p (points "key") given = .ok true) ∧
      ∀ signature, signWith digest p (points "key") = .ok signature →
        verifyWith digest q (points "key") (points signature) = .ok true →
        digest (bytesOfText "key") (bytesOfText "[\"1\",1]") =
          digest (bytesOfText "key") (bytesOfText "[\"1,1\"]") := by
  intro p q
  have hp : p.Exact :=
    .list (List.forall_mem_cons.mpr ⟨.text _, List.forall_mem_singleton.mpr (.int 1)⟩)
  have hq : q.Exact := .list (List.forall_mem_singleton.mpr (.text _))
  have hne : p ≠ q := by simp [p, q]
  have htext : canonical p = .ok (points "[\"1\",1]") :=
    canonical_eq_ok_iff.mpr ⟨by decide +kernel, by decide +kernel⟩
  have htext' : canonical q = .ok (points "[\"1,1\"]") :=
    canonical_eq_ok_iff.mpr ⟨by decide +kernel, by decide +kernel⟩
  refine ⟨htext, htext', fun digest => ?_⟩
  obtain ⟨_, _, hdecides, hone, _⟩ := signature_decides hp hq digest (points "key")
  refine ⟨hone (by decide +kernel), fun signature hsign haccepted => ?_⟩
  obtain ⟨key, message, message', hkey, hmessage, hmessage', _, hdigest⟩ :=
    hdecides signature hsign haccepted hne
  have hbytes {r : Payload} {t : String} {m : List UInt8} (hr : canonical r = .ok (points t))
      (hm : canonical r >>= encode = .ok m) : m = bytesOfText t := by
    rw [hr] at hm
    exact Except.ok.inj (hm.symm.trans (encode_points t))
  cases (encode_points _).symm.trans hkey
  rw [hbytes htext hmessage, hbytes htext' hmessage'] at hdigest
  exact hdigest

/-- Half of a surrogate pair that stands alone is no text that can be encoded, and a whole number
with 4301 digits is not written; so no signature is accepted for either. -/
theorem unsigned_payloads :
    (¬ ∃ given, verify (.text [.half 0]) (points "key") given = .ok true) ∧
      ¬ ∃ given, verify (.int (Int.pow 10 4300)) (points "key") given = .ok true := by
  have hnone {p : Payload} (h : ¬ CanSign p (points "key")) :
      ¬ ∃ given, verify p (points "key") given = .ok true := by
    rintro ⟨given, hgiven⟩
    obtain ⟨fault, hfault⟩ := verifyWith_of_not_canSign keyedDigest h given
    cases hfault.symm.trans hgiven
  exact ⟨hnone (by decide +kernel), hnone (by decide +kernel)⟩

end Stepwise.Signature
