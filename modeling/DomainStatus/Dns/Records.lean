import DomainStatus.ErrorHandling.Causes
import DomainStatus.Lib.Utf8Chunks
import DomainStatus.Utils.Sanitize

/-!
# TXT records

`lookup_txt_records` of `src/dns/records.rs`. A record is a list of character-strings of 255 bytes
or fewer. Each of them is decoded alone, so what a record says depends on where it is split. An
outer result of `none` stands for a panic of a slice. Read `txt_record_independent_of_split_iff`
first.
-/

namespace DomainStatus.Dns

open ErrorHandling Text Utf8

/-- The most bytes that are kept of one TXT record. -/
def maxTxtRecordSize : ℕ := 1024

/-- The most TXT records that are kept of one domain. -/
def maxTxtRecordCount : ℕ := 20

/-- A character-string of the DNS. Its length is one byte. -/
structure CharacterString where
  bytes : List UInt8
  short : bytes.length ≤ 255

/-- The data of an answer: that of a TXT record, or of a record of another type. -/
inductive RData where
  | txt (txtData : List CharacterString)
  | other (recordType : ℕ)

/-- A name without records is an empty answer, and any other failure is passed on. -/
def mapLookupError {T : Type*} (err : NetError) : Except NetError (List T) :=
  if err.isNoRecordsFound || err.isNxDomain then .ok [] else .error err

/-- A blank record is not worth a row. -/
def isStorableTxt (txt : List Char) : Bool :=
  !(trimChars txt).isEmpty

/-- A long record is cut at the boundary of a character. -/
def boundTxtRecord (concatenated : List Char) : Option (List Char) :=
  if len concatenated ≤ maxTxtRecordSize then some concatenated
  else Sanitize.truncateUtf8 concatenated maxTxtRecordSize

/-- The first storable records of an answer, in its order. -/
def takeStorableTxt (records : List (List Char)) : List (List Char) :=
  (records.filter isStorableTxt).take maxTxtRecordCount

/-- The character strings of a TXT record. -/
def txtData? : RData → Option (List CharacterString)
  | .txt txtData => some txtData
  | .other _ => none

/-- The text of one record. -/
def txtRecordText (txtData : List CharacterString) : Option (List Char) :=
  let concatenated := txtData.flatMap fun chunk => decodeLossy chunk.bytes
  boundTxtRecord concatenated

/-- The argument is what the resolver answers. -/
def lookupTxtRecords (lookup : Except NetError (List RData)) :
    Option (Except NetError (List (List Char))) :=
  match lookup with
  | .ok answers => do
      let records ← (answers.filterMap txtData?).mapM txtRecordText
      return .ok (takeStorableTxt records)
  | .error err => some (mapLookupError err)

variable {text : List Char} {txtData : List CharacterString}

/-- The longest start that is not too long, so there is no panic. -/
theorem boundTxtRecord_eq (text : List Char) :
    boundTxtRecord text = some (truncateAtCharBoundary maxTxtRecordSize text) := by
  rw [boundTxtRecord]
  split
  case isTrue hfits => rw [truncateAtCharBoundary_of_le hfits]
  case isFalse => exact Sanitize.truncateAtCharBoundary_eq text maxTxtRecordSize

/-- The stored text of a record is what fits of its decoded strings. -/
theorem txtRecordText_eq (txtData : List CharacterString) :
    txtRecordText txtData = some (truncateAtCharBoundary maxTxtRecordSize
      (decodeChunks (txtData.map CharacterString.bytes))) := by
  rw [txtRecordText, boundTxtRecord_eq, decodeChunks, List.flatMap_map]

/-- The text of a record is that of the whole bytes exactly when the splits are hidden. -/
theorem txtRecordText_eq_boundTxtRecord_iff
    (h : txtData.flatMap CharacterString.bytes = encode text) :
    txtRecordText txtData = boundTxtRecord text ↔
      SplitsHidden maxTxtRecordSize text (txtData.map CharacterString.bytes) := by
  have hchunks : (txtData.map CharacterString.bytes).flatten = encode text := by
    rw [← h, List.flatMap_def]
  rw [← truncate_decodeChunks_iff hchunks, txtRecordText_eq, boundTxtRecord_eq, Option.some.injEq]

/-- A record keeps the start of its text exactly when no character that it is split inside of would
be seen. -/
theorem txt_record_independent_of_split_iff
    (h : txtData.flatMap CharacterString.bytes = encode text) :
    (∃ kept, txtRecordText txtData = some kept ∧ boundTxtRecord text = some kept ∧
        len kept ≤ maxTxtRecordSize ∧ kept <+: text) ↔
      SplitsHidden maxTxtRecordSize text (txtData.map CharacterString.bytes) := by
  have hbound := boundTxtRecord_eq text
  obtain ⟨hstart, hfits, -⟩ := truncateAtCharBoundary_isLongestStart maxTxtRecordSize text
  rw [← txtRecordText_eq_boundTxtRecord_iff h]
  constructor
  · intro hkept
    obtain ⟨kept, hrecord, hwhole, -, -⟩ := hkept
    rw [hrecord, hwhole]
  · intro hsame
    exact ⟨_, hsame.trans hbound, hbound, hfits, hstart⟩

/-- The bytes of the one character in two character-strings. -/
theorem txt_record_independent_of_split_iff_accent :
    (∃ kept, txtRecordText [⟨[0xc3], by decide⟩, ⟨[0xa9], by decide⟩] = some kept ∧
        boundTxtRecord ['é'] = some kept ∧ len kept ≤ maxTxtRecordSize ∧ kept <+: ['é']) ↔
      SplitsHidden maxTxtRecordSize ['é'] [[0xc3], [0xa9]] :=
  txt_record_independent_of_split_iff (by decide)

/-- Two replacement characters are kept, and not the character. -/
theorem txt_record_split_inside_accent :
    ¬∃ kept, txtRecordText [⟨[0xc3], by decide⟩, ⟨[0xa9], by decide⟩] = some kept ∧
      boundTxtRecord ['é'] = some kept ∧ len kept ≤ maxTxtRecordSize ∧ kept <+: ['é'] := by
  intro h
  obtain ⟨kept, hrecord, hwhole, -⟩ := h
  rw [← hwhole] at hrecord
  exact absurd hrecord (by decide)

/-- A lookup whose records are split between characters only, or out of sight, gives the texts of
the records: the first ones that are not blank. -/
theorem lookupTxtRecords_of_splitsHidden {answers : List RData}
    {records : List (List CharacterString × List Char)}
    (hanswers : answers.filterMap txtData? = records.map Prod.fst)
    (hrecords : ∀ record ∈ records, record.1.flatMap CharacterString.bytes = encode record.2 ∧
      SplitsHidden maxTxtRecordSize record.2 (record.1.map CharacterString.bytes)) :
    lookupTxtRecords (.ok answers) = some (.ok (takeStorableTxt
      (records.map fun record => truncateAtCharBoundary maxTxtRecordSize record.2))) := by
  have htexts : (records.map Prod.fst).mapM txtRecordText =
      some (records.map fun record => truncateAtCharBoundary maxTxtRecordSize record.2) := by
    clear hanswers
    induction records with
    | nil => rfl
    | cons record records ih =>
        rw [List.forall_mem_cons] at hrecords
        obtain ⟨⟨hbytes, hhidden⟩, hrest⟩ := hrecords
        rw [List.map_cons, List.mapM_cons, ih hrest,
          (txtRecordText_eq_boundTxtRecord_iff hbytes).mpr hhidden, boundTxtRecord_eq]
        rfl
  rw [lookupTxtRecords, hanswers, htexts]
  rfl

end DomainStatus.Dns
