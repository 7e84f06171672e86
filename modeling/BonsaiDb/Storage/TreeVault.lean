import Mathlib.Data.List.Basic

/-!
# Storage — the page codec

`TreeVault`, the `nebari::Vault` the tree store encodes its pages with, in the three builds the
code has: compression only, compression and encryption, and encryption only. Each build has its
own `new_if_needed`, `encrypt` and `decrypt`.

* The vault's payload encryption and LZ4's block codec are parameters (`Codecs`).
* A page `encrypt` frames starts with `b"trv"` and a header byte whose high bit marks encryption
  and whose low seven bits name the compression; `decrypt` reads any page that starts so as framed
  (`splitHeader`).
* Without a key, a page under 128 bytes is stored as it is, so a short page that itself starts
  with `b"trv"` does not decode to itself (`trv_page_decodes_empty`); every other page does, given
  that the vault and LZ4 invert their encoders (`treeVault_round_trip`).
-/

namespace BonsaiDb.Local

/-- A vault key's id (`KeyId`, a type of the vault, which is not among the sources). -/
abbrev KeyId := String

/-- Modelled from the spec: `Compression`, whose one algorithm is LZ4. -/
inductive Compression where
  | lz4
  deriving DecidableEq, Repr

namespace Compression

/-- Modelled from the spec: `Compression::Lz4 as u8`, the code `1` (§6, page codec header). -/
def toU8 : Compression → UInt8
  | .lz4 => 1

@[simp] theorem toU8_eq (c : Compression) : c.toU8 = 1 := by
  cases c; rfl

/-- Modelled from the spec: `Compression::from_u8`. -/
def fromU8 (code : UInt8) : Option Compression :=
  if code = 1 then some .lz4 else none

end Compression

/-- The errors of `TreeVault`: `EncryptionDisabled`, and those of the vault and of LZ4. -/
inductive CodecError where
  | encryptionDisabled
  | vault (message : String)
  | compression (message : String)
  deriving DecidableEq, Repr

/-- What `TreeVault` calls and the sources do not define: the vault's payload encryption and
LZ4's block codec. -/
structure Codecs where
  encryptPayload : KeyId → List UInt8 → Except CodecError (List UInt8)
  decryptPayload : List UInt8 → Except CodecError (List UInt8)
  /-- `lz4_flex::block::compress_into`: the block, without its size. -/
  compress : List UInt8 → List UInt8
  decompressSizePrepended : List UInt8 → Except CodecError (List UInt8)

/-- A vault that inverts its encryption encrypts every payload, to a body it decrypts back. -/
theorem Codecs.encryptPayload_inverse {k : Codecs}
    (hvault : ∀ key payload, (k.encryptPayload key payload).bind k.decryptPayload = .ok payload)
    (key : KeyId) (payload : List UInt8) :
    ∃ body, k.encryptPayload key payload = .ok body ∧ k.decryptPayload body = .ok payload := by
  have := hvault key payload
  cases h : k.encryptPayload key payload with
  | error e => simp [h, Except.bind] at this
  | ok body => exact ⟨body, rfl, by simpa [h, Except.bind] using this⟩

/-- `u32::to_le_bytes`. -/
def le32 (n : UInt32) : List UInt8 :=
  [n.toUInt8, (n >>> 8).toUInt8, (n >>> 16).toUInt8, (n >>> 24).toUInt8]

@[simp] theorem length_le32 (n : UInt32) : (le32 n).length = 4 := rfl

/-- `lz4_flex::block::compress_prepend_size`: the length as a little-endian `u32`, then the
block. -/
def Codecs.compressPrependSize (k : Codecs) (payload : List UInt8) : List UInt8 :=
  le32 (UInt32.ofNat payload.length) ++ k.compress payload

/-- `b"trv"`. -/
def magic : List UInt8 := [116, 114, 118]

/-- What `decrypt` reads as a header: `payload[3]` and `payload[4..]`, when the payload has four
bytes or more and starts with `b"trv"`. -/
def splitHeader : List UInt8 → Option (UInt8 × List UInt8)
  | a :: b :: c :: header :: rest => if [a, b, c] = magic then some (header, rest) else none
  | _ => none

@[simp] theorem splitHeader_magic (header : UInt8) (rest : List UInt8) :
    splitHeader (magic ++ header :: rest) = some (header, rest) := rfl

/-! ## Compression only -/

/-- The compression-only build's `TreeVault`: `new_if_needed` builds one with a compression. -/
structure CompressionVault where
  compression : Option Compression
  compressed : compression.isSome

namespace CompressionVault

/-- `TreeVault::new_if_needed` of the compression-only build (lines 1460–1464). -/
def newIfNeeded (compression : Option Compression) : Option CompressionVault :=
  compression.map fun compression => ⟨some compression, rfl⟩

variable (k : Codecs) (v : CompressionVault)

/-- `encrypt` of the compression-only build (lines 1471–1490); `none` where it panics, on a page
of `UInt32.size` bytes or more, which `u32::try_from` rejects. -/
def encrypt (payload : List UInt8) : Option (List UInt8) :=
  if 128 ≤ payload.length ∧ v.compression = some .lz4 then
    if payload.length < UInt32.size then
      some (magic ++ Compression.lz4.toU8 ::
        (le32 (UInt32.ofNat payload.length) ++ k.compress payload))
    else none
  else some payload

/-- `decrypt` of the compression-only build (lines 1492–1511). -/
def decrypt (payload : List UInt8) : Except CodecError (List UInt8) :=
  match splitHeader payload with
  | some (header, rest) =>
    if header &&& 0x80 ≠ 0 then .error .encryptionDisabled
    else match Compression.fromU8 (header &&& 0x7f) with
      | some .lz4 => k.decompressSizePrepended rest
      | none => .ok rest
  | none => .ok payload

/-- A page the compression-only build compresses, or leaves as it is without a header, decodes
back to itself. -/
theorem decrypt_encrypt {k : Codecs}
    (hlz4 : ∀ payload, k.decompressSizePrepended (k.compressPrependSize payload) = .ok payload)
    (v : CompressionVault) {payload : List UInt8} (hlen : payload.length < UInt32.size)
    (hx : 128 ≤ payload.length ∨ splitHeader payload = none) :
    (v.encrypt k payload).map (decrypt k) = some (.ok payload) := by
  obtain ⟨c, hc⟩ := Option.isSome_iff_exists.mp v.compressed
  cases c
  by_cases hlong : 128 ≤ payload.length
  · -- compressed and framed under the header `Lz4 as u8`
    have h7f : Compression.fromU8 (Compression.lz4.toU8 &&& 0x7f) = some .lz4 := by decide
    rw [encrypt, if_pos ⟨hlong, hc⟩, if_pos hlen, Option.map_some', decrypt, splitHeader_magic]
    dsimp only
    rw [if_neg (by decide), h7f]
    exact congrArg some (hlz4 payload)
  · -- stored as it is, and read back as it is
    rw [encrypt, if_neg fun h => hlong h.1, Option.map_some', decrypt, hx.resolve_left hlong]

end CompressionVault

/-! ## Compression and encryption -/

/-- The compression-and-encryption build's `TreeVault`: `new_if_needed` builds one only when a
key or a compression is set. -/
structure CompressedEncryptedVault where
  key : Option KeyId
  compression : Option Compression
  needed : key.isSome ∨ compression.isSome

namespace CompressedEncryptedVault

/-- `TreeVault::new_if_needed` of the compression-and-encryption build (lines 1357–1371). -/
def newIfNeeded (key : Option KeyId) (compression : Option Compression) :
    Option CompressedEncryptedVault :=
  if h : key.isNone ∧ compression.isNone then none
  else some ⟨key, compression, by
    cases key <;> cases compression <;> simp_all⟩

variable (k : Codecs) (v : CompressedEncryptedVault)

/-- `TreeVault::header` (lines 1373–1383): the high bit for a key, the compression's code if the
page was compressed. -/
def header (compressed : Bool) : UInt8 :=
  let bits : UInt8 := if v.key.isSome then 0x80 else 0
  if compressed then
    match v.compression with
    | some compression => bits ||| compression.toU8
    | none => bits
  else bits

/-- The header's high bit says whether there is a key, and its low bits name LZ4 exactly when the
page was compressed. -/
theorem header_fields (incl : Bool) (hincl : incl → v.compression = some .lz4) :
    (v.header incl &&& 0x80 ≠ 0 ↔ v.key.isSome) ∧
      Compression.fromU8 (v.header incl &&& 0x7f) = if incl then some .lz4 else none := by
  rcases v with ⟨_ | key, _ | c, _⟩ <;> cases incl <;> simp_all [header] <;> decide

/-- A page with a key, or one that was compressed, gets a header that is not zero, so `encrypt`
frames it. -/
theorem header_ne_zero {incl : Bool} (hincl : incl → v.compression = some .lz4)
    (h : v.key.isSome ∨ incl) : v.header incl ≠ 0 := by
  rcases v with ⟨_ | key, _ | c, _⟩ <;> cases incl <;> simp_all [header] <;> decide

/-- `encrypt` of the compression-and-encryption build (lines 1390–1415). -/
def encrypt (payload : List UInt8) : Except CodecError (List UInt8) :=
  let includesCompression := decide (128 ≤ payload.length ∧ v.compression = some .lz4)
  let compressed := if includesCompression then k.compressPrependSize payload else payload
  let complete := match v.key with
    | some key => k.encryptPayload key compressed
    | none => .ok compressed
  complete.map fun complete =>
    let header := v.header includesCompression
    if header ≠ 0 then magic ++ header :: complete else complete

/-- `decrypt` of the compression-and-encryption build (lines 1417–1438). -/
def decrypt (payload : List UInt8) : Except CodecError (List UInt8) :=
  match splitHeader payload with
  | some (header, rest) =>
    let decrypted := if header &&& 0x80 ≠ 0 then k.decryptPayload rest else .ok rest
    decrypted.bind fun decrypted =>
      match Compression.fromU8 (header &&& 0x7f) with
      | some .lz4 => k.decompressSizePrepended decrypted
      | none => .ok decrypted
  | none => k.decryptPayload payload

/-- With a key, every page decodes back to itself; without one, every page `encrypt`
compresses. -/
theorem decrypt_encrypt {k : Codecs}
    (hvault : ∀ key payload, (k.encryptPayload key payload).bind k.decryptPayload = .ok payload)
    (hlz4 : ∀ payload, k.decompressSizePrepended (k.compressPrependSize payload) = .ok payload)
    (v : CompressedEncryptedVault) {payload : List UInt8}
    (hx : v.key.isSome ∨ 128 ≤ payload.length) :
    (v.encrypt k payload).bind (decrypt k) = .ok payload := by
  unfold encrypt
  dsimp only
  generalize hincl : decide (128 ≤ payload.length ∧ v.compression = some .lz4) = incl
  have hcomp : incl → v.compression = some .lz4 := fun h => by simp_all
  obtain ⟨hbit, hcode⟩ := v.header_fields incl hcomp
  -- without a key, the vault was built for a compression, so the page was compressed
  have hne : v.header incl ≠ 0 := v.header_ne_zero hcomp <| by
    rcases v with ⟨_ | key, _ | ⟨⟩, needed⟩
    · simp at needed
    all_goals simp_all
  -- the page comes back from what `encrypt` compressed, as the header's low bits say
  have hback : (match Compression.fromU8 (v.header incl &&& 0x7f) with
      | some .lz4 => k.decompressSizePrepended (if incl then k.compressPrependSize payload
          else payload)
      | none => .ok (if incl then k.compressPrependSize payload else payload)) = .ok payload := by
    rw [hcode]; cases incl <;> simp [hlz4]
  rcases v with ⟨_ | key, compression, needed⟩
  · -- no key: the high bit is clear, and the body is what was compressed
    have hclear : header ⟨none, compression, needed⟩ incl &&& 0x80 = 0 := by simpa using hbit
    simp only [Except.map, hne, ne_eq, not_false_eq_true, if_true, Except.bind, decrypt,
      splitHeader_magic, hclear]
    simpa using hback
  · -- a key: the body is the vault's encryption of what was compressed
    obtain ⟨body, henc, hdec⟩ := k.encryptPayload_inverse hvault key
      (if incl then k.compressPrependSize payload else payload)
    simp only [henc, Except.map, hne, ne_eq, not_false_eq_true, if_true, Except.bind, decrypt,
      splitHeader_magic, hbit.mpr rfl, hdec]
    simpa using hback

end CompressedEncryptedVault

/-! ## Encryption only -/

/-- The encryption-only build's `TreeVault`: `new_if_needed` builds one with a key. -/
structure EncryptedVault where
  key : Option KeyId
  keyed : key.isSome

namespace EncryptedVault

/-- `TreeVault::new_if_needed` of the encryption-only build (lines 1516–1521). -/
def newIfNeeded (key : Option KeyId) : Option EncryptedVault :=
  key.map fun key => ⟨some key, rfl⟩

variable (k : Codecs) (v : EncryptedVault)

/-- `encrypt` of the encryption-only build (lines 1537–1544). -/
def encrypt (payload : List UInt8) : Except CodecError (List UInt8) :=
  match v.key with
  | some key => k.encryptPayload key payload
  | none => .ok payload

/-- `decrypt` of the encryption-only build (lines 1546–1548). -/
def decrypt (payload : List UInt8) : Except CodecError (List UInt8) :=
  k.decryptPayload payload

theorem decrypt_encrypt {k : Codecs}
    (hvault : ∀ key payload, (k.encryptPayload key payload).bind k.decryptPayload = .ok payload)
    (v : EncryptedVault) (payload : List UInt8) :
    (v.encrypt k payload).bind (decrypt k) = .ok payload := by
  obtain ⟨_ | key, keyed⟩ := v
  · simp at keyed
  · exact hvault key payload

end EncryptedVault

/-- A `TreeVault` of one of the three builds. -/
inductive TreeVault where
  | compression (v : CompressionVault)
  | compressionEncryption (v : CompressedEncryptedVault)
  | encryption (v : EncryptedVault)

namespace TreeVault

variable (k : Codecs)

/-- `encrypt`; `none` where it panics. -/
def encrypt : TreeVault → List UInt8 → Option (Except CodecError (List UInt8))
  | .compression v, payload => (v.encrypt k payload).map .ok
  | .compressionEncryption v, payload => some (v.encrypt k payload)
  | .encryption v, payload => some (v.encrypt k payload)

/-- `decrypt`. -/
def decrypt : TreeVault → List UInt8 → Except CodecError (List UInt8)
  | .compression _, payload => CompressionVault.decrypt k payload
  | .compressionEncryption _, payload => CompressedEncryptedVault.decrypt k payload
  | .encryption _, payload => EncryptedVault.decrypt k payload

/-- `decrypt(encrypt(payload))`; `none` where `encrypt` panics. -/
def roundTrip (v : TreeVault) (payload : List UInt8) :
    Option (Except CodecError (List UInt8)) :=
  (v.encrypt k payload).map (·.bind (v.decrypt k))

/-- The pages a build decodes back for any vault and LZ4 that invert their encoders: every page
with a key; without one, a page `encrypt` compresses, or in the compression-only build a page
under `2^32` bytes that does not start as a header does. -/
def RoundTrips : TreeVault → List UInt8 → Prop
  | .compression _, payload =>
    payload.length < UInt32.size ∧ (128 ≤ payload.length ∨ splitHeader payload = none)
  | .compressionEncryption v, payload => v.key.isSome ∨ 128 ≤ payload.length
  | .encryption _, _ => True

/-- Given a vault and an LZ4 that invert their encoders, `encrypt` does not panic on a page its
build round-trips, and `decrypt` gives the page back. -/
theorem treeVault_round_trip {k : Codecs}
    (hvault : ∀ key payload, (k.encryptPayload key payload).bind k.decryptPayload = .ok payload)
    (hlz4 : ∀ payload, k.decompressSizePrepended (k.compressPrependSize payload) = .ok payload)
    {v : TreeVault} {payload : List UInt8} (hx : v.RoundTrips payload) :
    v.roundTrip k payload = some (.ok payload) := by
  cases v with
  | compression v =>
    simpa [roundTrip, encrypt, decrypt, Option.map_map, Function.comp_def, Except.bind]
      using v.decrypt_encrypt hlz4 hx.1 hx.2
  | compressionEncryption v =>
    simpa [roundTrip, encrypt, decrypt] using v.decrypt_encrypt hvault hlz4 hx
  | encryption v => simpa [roundTrip, encrypt, decrypt] using v.decrypt_encrypt hvault payload

end TreeVault

/-! ## Pages -/

/-- Codecs that keep pages as they are: the vault's encryption is the identity, and so is LZ4's
block. -/
def identityCodecs : Codecs :=
  ⟨fun _ payload => .ok payload, .ok, id, fun payload => .ok (payload.drop 4)⟩

theorem identityCodecs_vault (key : KeyId) (payload : List UInt8) :
    (identityCodecs.encryptPayload key payload).bind identityCodecs.decryptPayload =
      .ok payload := rfl

theorem identityCodecs_lz4 (payload : List UInt8) :
    identityCodecs.decompressSizePrepended (identityCodecs.compressPrependSize payload) =
      .ok payload := by
  simp [identityCodecs, Codecs.compressPrependSize]

/-- The compression-only build's vault for `Some(Lz4)`. -/
def lz4Vault : CompressionVault := ⟨some .lz4, rfl⟩

/-- A page of 128 zero bytes, which `encrypt` compresses. -/
def zeroPage : List UInt8 := List.replicate 128 0

theorem zeroPage_round_trip :
    (∀ key payload, (identityCodecs.encryptPayload key payload).bind
        identityCodecs.decryptPayload = .ok payload) ∧
      (∀ payload, identityCodecs.decompressSizePrepended
        (identityCodecs.compressPrependSize payload) = .ok payload) ∧
      (TreeVault.compression lz4Vault).RoundTrips zeroPage ∧
      (TreeVault.compression lz4Vault).roundTrip identityCodecs zeroPage = some (.ok zeroPage) :=
  have hx : (TreeVault.compression lz4Vault).RoundTrips zeroPage :=
    ⟨by rw [zeroPage, List.length_replicate]; decide, .inl (by simp [zeroPage])⟩
  ⟨identityCodecs_vault, identityCodecs_lz4, hx,
    TreeVault.treeVault_round_trip identityCodecs_vault identityCodecs_lz4 hx⟩

/-- `b"trv\0"`: a page under 128 bytes that starts as a header. -/
def trvPage : List UInt8 := magic ++ [0]

/-- With codecs that invert their encoders, the compression-only build with `Some(Lz4)`, and the
compression-and-encryption build with no key and `Some(Lz4)`, store `b"trv\0"` as it is and
decode it to the empty page. -/
theorem trv_page_decodes_empty :
    (∀ key payload, (identityCodecs.encryptPayload key payload).bind
        identityCodecs.decryptPayload = .ok payload) ∧
      (∀ payload, identityCodecs.decompressSizePrepended
        (identityCodecs.compressPrependSize payload) = .ok payload) ∧
      CompressionVault.newIfNeeded (some .lz4) = some lz4Vault ∧
      (TreeVault.compression lz4Vault).roundTrip identityCodecs trvPage = some (.ok []) ∧
      CompressedEncryptedVault.newIfNeeded none (some .lz4) = some ⟨none, some .lz4, .inr rfl⟩ ∧
      (TreeVault.compressionEncryption ⟨none, some .lz4, .inr rfl⟩).roundTrip identityCodecs
        trvPage = some (.ok []) :=
  ⟨identityCodecs_vault, identityCodecs_lz4, rfl, rfl, rfl, rfl⟩

end BonsaiDb.Local
