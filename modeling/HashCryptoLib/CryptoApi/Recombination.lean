import HashCryptoLib.CryptoApi.PasswordRoundTrip

/-!
What can be made of a message without its password. Each record is sealed by
itself and nothing ties it to its place, so whatever is accepted puts together
whole chunks of the plaintext, one for each record, and every such choice of
records is accepted, none at all among them.
-/

namespace HashCryptoLib.CryptoApi

open Pgp (Status Buffer Failure fail)
open Pgp.Status
open Chunks Records AeadCipher

section Recombination

variable {api : Provider} {onProgress : ℕ → ℕ → Bool} {password message tampered : Bytes}

theorem Holds.unique {key key' : Octets api.cipher.keySize} {records records' : List (ℕ × Bytes)}
    (h : Holds api password message key records) (h' : Holds api password message key' records') :
    key = key' ∧ records = records' := by
  obtain ⟨salt, rest, hmessage, hkey, hrecords⟩ := h
  obtain ⟨salt', rest', hmessage', hkey', hrecords'⟩ := h'
  obtain ⟨hsalt, rfl⟩ := List.append_inj (hmessage.symm.trans hmessage') (by rw [salt.2, salt'.2])
  obtain rfl := Subtype.ext hsalt
  exact ⟨Option.some.inj (hkey.symm.trans hkey'), hrecords.unique hrecords'⟩

theorem Opens.unique {cipher : AeadCipher} {key : Octets cipher.keySize} {record : ℕ × Bytes}
    {chunk chunk' : Bytes} (h : cipher.Opens key record chunk)
    (h' : cipher.Opens key record chunk') : chunk = chunk' :=
  Except.ok.inj (h.symm.trans h')

/-- The size a record states is that of what it seals. -/
theorem length_of_mem_reads {cipher : AeadCipher} {chunkSize : ℕ} {rest : Bytes}
    {records : List (ℕ × Bytes)} (h : Reads (cipher.nextRecord chunkSize) rest records)
    {record : ℕ × Bytes} (hmem : record ∈ records) :
    record.2.length = record.1 + cipher.overhead := by
  induction h with
  | nil => cases hmem
  | cons _ hnext _ ih =>
      rcases List.mem_cons.mp hmem with rfl | hrest
      · exact (nextRecord_eq_some hnext).2.2.2.1
      · exact ih hrest

theorem Holds.record_ext {key key' : Octets api.cipher.keySize}
    {records records' : List (ℕ × Bytes)} (h : Holds api password message key records)
    (h' : Holds api password tampered key' records') {record record' : ℕ × Bytes}
    (hmem : record ∈ records) (hmem' : record' ∈ records') (hsealed : record.2 = record'.2) :
    record = record' := by
  obtain ⟨_, _, -, -, hrecords⟩ := h
  obtain ⟨_, _, -, -, hrecords'⟩ := h'
  have hlength := length_of_mem_reads hrecords hmem
  have hlength' := length_of_mem_reads hrecords' hmem'
  apply Prod.ext _ hsealed
  rw [hsealed] at hlength
  omega

variable (api)

/-- The sealed octets in a message, each with the key they are opened with. -/
def Presented (password message : Bytes) : Set (Octets api.cipher.keySize × Bytes) :=
  { sealed | ∃ records, Holds api password message sealed.1 records ∧
    ∃ record ∈ records, record.2 = sealed.2 }

/-- No record in `tampered` is forged: what opens was sealed in the message. -/
def Unforged (password message tampered : Bytes) : Prop :=
  ∀ sealed ∈ Presented api password tampered, ∀ capacity chunk,
    api.cipher.decryptBufferWithKey sealed.1 sealed.2 capacity = .ok chunk →
      sealed ∈ Presented api password message

/-- `tampered` consists of records of the message, in whatever order and number,
and `delivered` of the chunks they were made of. -/
def Recombines (password plaintext message tampered delivered : Bytes) : Prop :=
  ∃ key records key' pairs, Holds api password message key records ∧
    Holds api password tampered key' (pairs.map Prod.fst) ∧ (pairs ≠ [] → key' = key) ∧
    (∀ pair ∈ pairs, pair ∈ records.zip (chunksOf BUFFER_CHUNK_SIZE plaintext)) ∧
    delivered = (pairs.map Prod.snd).flatten

variable {api}

/-- Records of the message that are opened with its key are not forged. -/
theorem Holds.unforged {key key' : Octets api.cipher.keySize} {records records' : List (ℕ × Bytes)}
    (h : Holds api password message key records) (h' : Holds api password tampered key' records')
    (hsame : ∀ record ∈ records', key' = key ∧ record ∈ records) :
    Unforged api password message tampered := by
  rintro ⟨sealedKey, octets⟩ ⟨presented, hpresented, record, hrecord, hsealed⟩ _ _ _
  obtain ⟨hkey, rfl⟩ := h'.unique hpresented
  obtain ⟨rfl, hmem⟩ := hsame record hrecord
  dsimp only at hkey
  subst hkey
  exact ⟨records, h, record, hmem, hsealed⟩

theorem mem_zip_of_forall₂ {α β : Type*} {R : α → β → Prop} {as : List α} {bs : List β}
    (h : List.Forall₂ R as bs) {a : α} (hmem : a ∈ as) : ∃ b, (a, b) ∈ as.zip bs ∧ R a b := by
  induction h with
  | nil => cases hmem
  | cons hfirst _ ih =>
      rcases List.mem_cons.mp hmem with rfl | hrest
      · exact ⟨_, List.mem_cons_self, hfirst⟩
      · obtain ⟨b, hzip, hb⟩ := ih hrest
        exact ⟨b, List.mem_cons_of_mem _ hzip, hb⟩

/-- What a tampered message says is put together from chunks of the plaintext. -/
theorem recombines_of_decodes {plaintext delivered : Bytes} {key : Octets api.cipher.keySize}
    {records : List (ℕ × Bytes)} (hencodes : Encodes api password plaintext message key records)
    (hunforged : Unforged api password message tampered)
    (h : Decodes api password tampered delivered) :
    Recombines api password plaintext message tampered delivered := by
  obtain ⟨key', records', chunks, hholds, hopens, rfl⟩ := h
  -- a record that opens is one of the message, and opens to the chunk it was made of
  have hgenuine : ∀ pair ∈ records'.zip chunks, key' = key ∧
      pair ∈ records.zip (chunksOf BUFFER_CHUNK_SIZE plaintext) := by
    rintro ⟨record, chunk⟩ hpair
    have hopened := (List.forall₂_iff_zip.mp hopens).2 hpair
    have hrecord := (List.of_mem_zip hpair).1
    obtain ⟨original, horiginal, record', hrecord', hsealed⟩ :=
      hunforged (key', record.2) ⟨records', hholds, record, hrecord, rfl⟩ _ _ hopened
    obtain ⟨hkey, rfl⟩ := hencodes.holds.unique horiginal
    dsimp only at hkey
    subst hkey
    obtain rfl := hencodes.holds.record_ext hholds hrecord' hrecord hsealed
    obtain ⟨chunk', hzip, hchunk'⟩ := mem_zip_of_forall₂ hencodes.opens hrecord'
    rw [Opens.unique hopened hchunk']
    exact ⟨rfl, hzip⟩
  have hlength := (List.forall₂_iff_zip.mp hopens).1
  refine ⟨key, records, key', records'.zip chunks, hencodes.holds, ?_, ?_,
    fun pair hpair => (hgenuine pair hpair).2, ?_⟩
  · rwa [List.map_fst_zip hlength.le]
  · intro hfull
    obtain ⟨pair, hpair⟩ := List.exists_mem_of_ne_nil _ hfull
    exact (hgenuine pair hpair).1
  · rw [List.map_snd_zip hlength.ge]

/-- Any choice of records is accepted, and says the chunks they were made of. -/
theorem decodes_of_recombines {plaintext delivered : Bytes} {key : Octets api.cipher.keySize}
    {records : List (ℕ × Bytes)} (hencodes : Encodes api password plaintext message key records)
    (h : Recombines api password plaintext message tampered delivered) :
    Decodes api password tampered delivered := by
  obtain ⟨original, records', key', pairs, horiginal, hholds, hkey, hpairs, rfl⟩ := h
  obtain ⟨rfl, rfl⟩ := hencodes.holds.unique horiginal
  refine ⟨key', pairs.map Prod.fst, pairs.map Prod.snd, hholds, ?_, rfl⟩
  rw [List.forall₂_map_left_iff, List.forall₂_map_right_iff, List.forall₂_same]
  intro pair hpair
  rw [hkey (List.ne_nil_of_mem hpair)]
  exact (List.forall₂_iff_zip.mp hencodes.opens).2 (hpairs pair hpair)

/-- Without a forged record, either call accepts just the recombinations of a
message, and delivers the chunks their records were made of. -/
theorem delivered_iff_recombines (hlawful : api.cipher.Lawful)
    (hgoes : ∀ current total, onProgress current total = true) {password : Buffer}
    {plaintext : Bytes} (hproduced : Produced api password plaintext message)
    (hunforged : Unforged api password.1 message tampered) (delivered : Bytes) :
    (∀ given, cString given = password.1 →
      (DecryptFile api onProgress given tampered =
          { status := NO_ERROR, outputFile := some delivered } ↔
        Recombines api password.1 plaintext message tampered delivered)) ∧
    ∀ (hshort : tampered.length < 2 ^ 31) (destination : Destination),
      (DecryptBuffer api onProgress password ⟨tampered, hshort⟩ destination).status = NO_ERROR ∧
          (DecryptBuffer api onProgress password ⟨tampered, hshort⟩ destination).output =
            delivered ↔
        destination.HasRoom delivered.length ∧
          Recombines api password.1 plaintext message tampered delivered := by
  obtain ⟨hpassword, key, records, hencodes⟩ := hproduced.encodes hlawful
  have hsays : Decodes api password.1 tampered delivered ↔
      Recombines api password.1 plaintext message tampered delivered :=
    ⟨recombines_of_decodes hencodes hunforged, decodes_of_recombines hencodes⟩
  constructor
  · intro given hgiven
    have hshort : password.1.length ≤ INT_MAX := Nat.le_of_lt_succ password.2
    rw [DecryptFile_iff hgoes, hgiven, and_iff_right hpassword, and_iff_right hshort]
    exact hsays
  · intro hshort destination
    rw [DecryptBuffer_iff hgoes, and_iff_right hpassword]
    exact and_congr_right fun _ => hsays

end Recombination

/-! ### Repeating a message, and cutting it short -/

def samplePlaintext : Buffer := ⟨[1, 2, 3], by decide⟩

def sampleMessage : Bytes :=
  (EncryptBuffer standInProvider (fun _ _ => true) standInDraws samplePassword samplePlaintext
    ⟨true, 51⟩).output

def sampleSalt : Octets PASSWORD_SALT_SIZE :=
  ⟨sampleMessage.take PASSWORD_SALT_SIZE, by decide⟩

def sampleKey : Octets 32 :=
  ⟨Sha.sha256.hash (samplePassword.1 ++ sampleSalt.1), Sha.sha256.length_hash _⟩

/-- The record behind the salt, with its size prefix. -/
def sampleRecord : Bytes := sampleMessage.drop PASSWORD_SALT_SIZE

theorem sampleRecord_next :
    standInCipher.nextRecord BUFFER_CHUNK_SIZE sampleRecord =
      some ((3, sampleRecord.drop 4), []) := by
  decide +kernel

theorem sampleMessage_holds :
    Holds standInProvider samplePassword.1 sampleMessage sampleKey
      [(3, sampleRecord.drop 4)] := by
  refine ⟨sampleSalt, sampleRecord, (List.take_append_drop _ _).symm, rfl, ?_⟩
  exact .cons (by decide) sampleRecord_next .nil

theorem sampleMessage_produced :
    Produced standInProvider samplePassword samplePlaintext.1 sampleMessage := by
  have hwritten : (EncryptBuffer standInProvider (fun _ _ => true) standInDraws samplePassword
      samplePlaintext ⟨true, 51⟩).status = NO_ERROR := by decide
  exact Or.inl ⟨samplePlaintext.2, _, _, _, hwritten, rfl⟩

/-- A message whose record is repeated says its plaintext twice. -/
theorem sampleMessage_repeated :
    DecryptFile standInProvider (fun _ _ => true) samplePassword.1
        (sampleMessage ++ sampleRecord) =
      { status := NO_ERROR, outputFile := some [1, 2, 3, 1, 2, 3] } := by
  have hfirst : standInCipher.nextRecord BUFFER_CHUNK_SIZE (sampleRecord ++ sampleRecord) =
      some ((3, sampleRecord.drop 4), sampleRecord) := by
    decide +kernel
  have hrepeated : Holds standInProvider samplePassword.1 (sampleMessage ++ sampleRecord)
      sampleKey [(3, sampleRecord.drop 4), (3, sampleRecord.drop 4)] := by
    refine ⟨sampleSalt, sampleRecord ++ sampleRecord, ?_, rfl, ?_⟩
    · rw [← List.append_assoc]
      exact congrArg (· ++ sampleRecord) (List.take_append_drop _ _).symm
    · exact .cons (by decide) hfirst (.cons (by decide) sampleRecord_next .nil)
  have hunforged : Unforged standInProvider samplePassword.1 sampleMessage
      (sampleMessage ++ sampleRecord) :=
    sampleMessage_holds.unforged hrepeated fun record hrecord => ⟨rfl, by simpa using hrecord⟩
  have hgoes (current total : ℕ) : (fun _ _ => true : ℕ → ℕ → Bool) current total = true := rfl
  refine ((delivered_iff_recombines standInProvider_lawful hgoes sampleMessage_produced hunforged
    [1, 2, 3, 1, 2, 3]).1 samplePassword.1 (by decide)).mpr ?_
  refine ⟨sampleKey, _, sampleKey, [((3, sampleRecord.drop 4), [1, 2, 3]),
    ((3, sampleRecord.drop 4), [1, 2, 3])], sampleMessage_holds, hrepeated, fun _ => rfl, ?_, rfl⟩
  decide +kernel

/-- The salt of a message, without its only record. -/
def bareSalt : Buffer := ⟨sampleSalt.1, by decide⟩

/-- Both calls accept the bare salt, as the message of an empty plaintext. -/
theorem bareSalt_accepted :
    Unforged standInProvider samplePassword.1 sampleMessage bareSalt.1 ∧
      bareSalt.1 ≠ sampleMessage ∧ samplePlaintext.1 ≠ [] ∧
      DecryptBuffer standInProvider (fun _ _ => true) samplePassword bareSalt ⟨true, 51⟩ =
        { status := NO_ERROR, outputBufferSize := 0, output := [] } ∧
      DecryptFile standInProvider (fun _ _ => true) samplePassword.1 bareSalt.1 =
        { status := NO_ERROR, outputFile := some [] } := by
  constructor
  · have hbare : Holds standInProvider samplePassword.1 bareSalt.1 sampleKey [] :=
      ⟨sampleSalt, [], (List.append_nil _).symm, rfl, .nil⟩
    exact sampleMessage_holds.unforged hbare fun record hrecord => nomatch hrecord
  · decide +kernel

end HashCryptoLib.CryptoApi
