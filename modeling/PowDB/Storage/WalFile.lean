import PowDB.Lib.Loop
import PowDB.Storage.RowFormat

/-! The bytes of the log file: how a record is appended and how the log is read back. The
reader stops at a record that does not parse, unless a valid record can be found behind it. -/
namespace PowDB.Storage.WalFile
variable {file : Bytes} {pos : ℕ}
open Lib List Option
open RowFormat (toLeBytes ofLeBytes)

inductive RecordType
  | insert | update | delete | commit | rollback | ddlCreateTable | ddlDropTable | ddlAddColumn
  | ddlDropColumn | begin | overflowWrite | overflowFree
  deriving DecidableEq

def RecordType.toU8 : RecordType → UInt8
  | .insert => 1
  | .update => 2
  | .delete => 3
  | .commit => 4
  | .rollback => 5
  | .ddlCreateTable => 6
  | .ddlDropTable => 7
  | .ddlAddColumn => 8
  | .ddlDropColumn => 9
  | .begin => 10
  | .overflowWrite => 11
  | .overflowFree => 12

def RecordType.fromU8 : UInt8 → Option RecordType
  | 1 => some .insert
  | 2 => some .update
  | 3 => some .delete
  | 4 => some .commit
  | 5 => some .rollback
  | 6 => some .ddlCreateTable
  | 7 => some .ddlDropTable
  | 8 => some .ddlAddColumn
  | 9 => some .ddlDropColumn
  | 10 => some .begin
  | 11 => some .overflowWrite
  | 12 => some .overflowFree
  | _ => none

lemma RecordType.fromU8_eq : fromU8 b = some t ↔ b = t.toU8 := by
  constructor
  · intro h
    unfold fromU8 at h
    split at h
    all_goals cases h
    all_goals rfl
  · rintro rfl
    cases t <;> rfl

/-- One bit of the reflected CRC-32 division. -/
def crcShift (c : UInt32) : UInt32 := if c &&& 1 = 1 then (c >>> 1) ^^^ 0xEDB88320 else c >>> 1

def crcByte (c : UInt32) (b : UInt8) : UInt32 :=
  crcShift (crcShift (crcShift (crcShift (crcShift (crcShift (crcShift (crcShift (c ^^^ b.toUInt32))))))))

/-- The checksum `crc32fast::hash`. -/
def crc32 (b : Bytes) : UInt32 := b.foldl crcByte 0xFFFFFFFF ^^^ 0xFFFFFFFF

example : crc32 [49,50,51,52,53,54,55,56,57] = 0xCBF43926 := by decide +kernel

structure WalRecord where
  txId : UInt64
  recordType : RecordType
  lsn : UInt64
  data : Bytes
  deriving DecidableEq

def walHeaderSize : ℕ := 25
def walFileHeaderSize : ℕ := 8
def maxWalRecordSize : ℕ := 256*1024*1024
def corruptionProbeWindow : ℕ := 1024*1024
def walMagic : Bytes := [80,87,65,76]
def walFormatVersion : ℕ := 1

def WalRecord.crcInput (r : WalRecord) : Bytes :=
  toLeBytes 8 r.txId.toNat++r.recordType.toU8::(toLeBytes 8 r.lsn.toNat++r.data)

def WalRecord.encode (r : WalRecord) : Bytes :=
  toLeBytes 4 (walHeaderSize+r.data.length)++(toLeBytes 4 (crc32 r.crcInput).toNat++r.crcInput)

/-- An open log: the bytes of the file and the next LSN. -/
structure Wal where
  contents : Bytes
  nextLsn : UInt64

def fileHeader : Bytes := walMagic++toLeBytes 2 walFormatVersion++toLeBytes 2 0

def Wal.create (nextLsn : UInt64) : Wal := ⟨fileHeader,nextLsn⟩

def Wal.append (w : Wal) (txId : UInt64) (recordType : RecordType) (data : Bytes) : Wal :=
  ⟨w.contents++(⟨txId,recordType,w.nextLsn,data⟩ : WalRecord).encode,w.nextLsn+1⟩

inductive CorruptReason
  | unknownRecordType | pastEnd | shorterThanHeader | tooLarge | crcMismatch
  deriving DecidableEq

inductive ParseOutcome
  | record (r : WalRecord) (next : ℕ)
  | eof
  | corrupt (reason : CorruptReason) (resumeAt : Option ℕ)
  deriving DecidableEq

inductive WalError
  | unsupportedVersion (version : ℕ)
  /-- "record at byte `pos` is corrupt, but a valid record follows at byte `foundAt`". -/
  | damageInside (pos : ℕ) (reason : CorruptReason) (foundAt : ℕ)
  deriving DecidableEq

def parseRecordAt (file : Bytes) (pos fileLen : ℕ) : ParseOutcome :=
  if fileLen < pos+walHeaderSize then .eof
  else
    let header := (file.drop pos).take walHeaderSize
    let totalLen := ofLeBytes (header.take 4)
    let storedCrc := ofLeBytes ((header.drop 4).take 4)
    let txId := UInt64.ofNat (ofLeBytes ((header.drop 8).take 8))
    match RecordType.fromU8 (header.getD 16 0) with
    | none => .corrupt .unknownRecordType none
    | some recordType =>
      let lsn := UInt64.ofNat (ofLeBytes ((header.drop 17).take 8))
      if fileLen < pos+totalLen then .corrupt .pastEnd none
      else if totalLen < walHeaderSize then .corrupt .shorterThanHeader none
      else if maxWalRecordSize < totalLen-walHeaderSize then .corrupt .tooLarge none
      else
        let r : WalRecord := ⟨txId,recordType,lsn,(file.drop (pos+walHeaderSize)).take (totalLen-walHeaderSize)⟩
        if (crc32 r.crcInput).toNat = storedCrc then .record r (pos+totalLen)
        else .corrupt .crcMismatch (some (pos+totalLen))

def ParseOutcome.isRecord : ParseOutcome → Bool
  | record .. => true
  | _ => false

/-- Offset of the first valid record behind the corrupt one. -/
def probeForValidRecord (file : Bytes) (resumeAt : Option ℕ) (badPos fileLen : ℕ) : Option ℕ :=
  match resumeAt.filter (fun next => next ≤ fileLen && (parseRecordAt file next fileLen).isRecord) with
  | some next => some next
  | none =>
    let scanEnd := min (fileLen-walHeaderSize) (badPos+corruptionProbeWindow)
    (List.range' (badPos+1) (scanEnd-badPos)).find? (fun candidate =>
      (parseRecordAt file candidate fileLen).isRecord)

def walRecordsStart (file : Bytes) : Except WalError ℕ :=
  if walFileHeaderSize ≤ file.length then
    if file.take 4 = walMagic then
      let version := ofLeBytes ((file.drop 4).take 2)
      if version = walFormatVersion then .ok walFileHeaderSize else .error (.unsupportedVersion version)
    else .ok 0
  else .ok (min walFileHeaderSize file.length)

/-- One turn of the reading loop. -/
def parseTurn (file : Bytes) (fileLen : ℕ) (s : ℕ × List WalRecord) :
    Turn (ℕ × List WalRecord) (Except WalError (List WalRecord)) :=
  match parseRecordAt file s.1 fileLen with
  | .record r next => .again (next,s.2++[r])
  | .eof => .done (.ok s.2)
  | .corrupt reason resumeAt =>
    match probeForValidRecord file resumeAt s.1 fileLen with
    | some foundAt => .done (.error (.damageInside s.1 reason foundAt))
    | none => .done (.ok s.2)

/-- The records of the file up to a length; `none` when the loop is cut off. -/
def parseWalRecords (file : Bytes) (maxLen : ℕ) : Option (Except WalError (List WalRecord)) :=
  let fileLen := min file.length maxLen
  match walRecordsStart file with
  | .error e => some (.error e)
  | .ok pos => (Turn.run (parseTurn file fileLen) (fileLen+1) (pos,[])).map (·.1)

/-- The bound `u64::MAX` of the source is no bound: it is the longest file there is. -/
def readAll (file : Bytes) : Option (Except WalError (List WalRecord)) := parseWalRecords file file.length

lemma length_toLeBytes (n v : ℕ) : (toLeBytes n v).length = n := by simp [toLeBytes]

lemma toLeBytes_succ (n v : ℕ) : toLeBytes (n+1) v = UInt8.ofNat v::toLeBytes n (v/256) := by
  rw [toLeBytes,List.range_succ_eq_map,List.map_cons,List.map_map,pow_zero,Nat.div_one,toLeBytes]
  congr 1
  apply List.map_congr_left
  intro i _
  simp only [Function.comp_apply,Nat.pow_succ',Nat.div_div_eq_div_mul]

lemma ofLeBytes_toLeBytes (n v : ℕ) (h : v < 256^n) : ofLeBytes (toLeBytes n v) = v := by
  induction n generalizing v with
  | zero =>
    obtain rfl : v = 0 := by omega
    rfl
  | succ n ih =>
    have hdiv : v/256 < 256^n := by
      exact Nat.div_lt_of_lt_mul (by rwa [Nat.mul_comm])
    rw [toLeBytes_succ,ofLeBytes,foldr_cons,← ofLeBytes,ih _ hdiv,UInt8.toNat_ofNat']
    omega

lemma toLeBytes_ofLeBytes (b : Bytes) : toLeBytes b.length (ofLeBytes b) = b := by
  induction b with
  | nil => rfl
  | cons x b ih =>
    have hx := x.toNat_lt
    have hfold : ofLeBytes (x::b) = x.toNat+256*ofLeBytes b := rfl
    rw [length_cons,toLeBytes_succ,hfold]
    have hdiv : (x.toNat+256*ofLeBytes b)/256 = ofLeBytes b := by omega
    rw [hdiv,ih,cons.injEq]
    refine ⟨?_,rfl⟩
    apply UInt8.toNat_inj.mp
    rw [UInt8.toNat_ofNat']
    omega

lemma ofLeBytes_lt (b : Bytes) : ofLeBytes b < 256^b.length := by
  induction b with
  | nil => decide
  | cons x b ih =>
    have hx := x.toNat_lt
    have hfold : ofLeBytes (x::b) = x.toNat+256*ofLeBytes b := rfl
    rw [hfold,length_cons,Nat.pow_succ]
    omega

/-- The bytes of a record before its payload. -/
def WalRecord.header (r : WalRecord) : Bytes :=
  toLeBytes 4 (walHeaderSize+r.data.length)++(toLeBytes 4 (crc32 r.crcInput).toNat++
    (toLeBytes 8 r.txId.toNat++r.recordType.toU8::toLeBytes 8 r.lsn.toNat))

lemma WalRecord.encode_eq (r : WalRecord) : r.encode = r.header++r.data := by
  simp [encode,header,crcInput]

lemma WalRecord.length_header (r : WalRecord) : r.header.length = walHeaderSize := by
  simp [header,length_toLeBytes,walHeaderSize]

lemma WalRecord.length_encode (r : WalRecord) : r.encode.length = walHeaderSize+r.data.length := by
  rw [encode_eq,length_append,length_header]

variable {r : WalRecord}

/-- A whole record is read back, whatever follows it. -/
lemma parseRecordAt_encode (hfile : file.drop pos = r.encode++rest)
    (hsize : r.data.length ≤ maxWalRecordSize) :
    parseRecordAt file pos file.length = .record r (pos+r.encode.length) := by
  have hlen : file.length-pos = walHeaderSize+r.data.length+rest.length := by
    rw [← length_drop,hfile,length_append,r.length_encode]
  have hheader : (file.drop pos).take walHeaderSize = r.header := by
    rw [hfile,r.encode_eq,append_assoc,take_left' r.length_header]
  have hdata : (file.drop (pos+walHeaderSize)).take r.data.length = r.data := by
    rw [← drop_drop,hfile,r.encode_eq,append_assoc,drop_left' r.length_header,
      take_left' rfl]
  have hmax : maxWalRecordSize = 268435456 := rfl
  have hhead : walHeaderSize = 25 := rfl
  have htotal : ofLeBytes (r.header.take 4) = walHeaderSize+r.data.length :=
    ofLeBytes_toLeBytes 4 _ (by omega)
  have hcrc : ofLeBytes ((r.header.drop 4).take 4) = (crc32 r.crcInput).toNat :=
    ofLeBytes_toLeBytes 4 _ (crc32 r.crcInput).toNat_lt
  have htx : UInt64.ofNat (ofLeBytes ((r.header.drop 8).take 8)) = r.txId := by
    rw [show (r.header.drop 8).take 8 = toLeBytes 8 r.txId.toNat from rfl,
      ofLeBytes_toLeBytes 8 _ r.txId.toNat_lt,UInt64.ofNat_toNat]
  have hlsn : UInt64.ofNat (ofLeBytes ((r.header.drop 17).take 8)) = r.lsn := by
    rw [show (r.header.drop 17).take 8 = toLeBytes 8 r.lsn.toNat from rfl,
      ofLeBytes_toLeBytes 8 _ r.lsn.toNat_lt,UInt64.ofNat_toNat]
  have htype : RecordType.fromU8 (r.header.getD 16 0) = some r.recordType := RecordType.fromU8_eq.mpr rfl
  rw [parseRecordAt,if_neg (by omega)]
  simp only [hheader,htype,htotal]
  rw [if_neg (by omega),if_neg (by omega),if_neg (by omega)]
  simp only [Nat.add_sub_cancel_left,hdata,htx,hlsn,hcrc,if_true,r.length_encode]

/-- A header in its fields. -/
lemma header_fields {h : Bytes} (hlen : h.length = walHeaderSize) :
    h = h.take 4++((h.drop 4).take 4++((h.drop 8).take 8++h.getD 16 0::(h.drop 17).take 8)) := by
  have h16 : h.drop 16 = h.getD 16 0::h.drop 17 := by
    have hlt : 16 < h.length := by rw [hlen]; decide
    rw [drop_eq_getElem_cons hlt,getD_eq_getElem?_getD,getElem?_eq_getElem hlt,getD_some]
  have hend : (h.drop 17).take 8 = h.drop 17 := by
    apply take_of_length_le
    rw [length_drop,hlen]
    decide
  have h8 : (h.drop 8).take 8++h.drop 16 = h.drop 8 := by
    have := take_append_drop 8 (h.drop 8)
    rwa [drop_drop] at this
  have h4 : (h.drop 4).take 4++h.drop 8 = h.drop 4 := by
    have := take_append_drop 4 (h.drop 4)
    rwa [drop_drop] at this
  rw [hend,← h16,h8,h4,take_append_drop]

lemma toLeBytes_field {n : ℕ} {b : Bytes} (h : b.length = n) : toLeBytes n (ofLeBytes b) = b := by
  subst h
  exact toLeBytes_ofLeBytes b

lemma toLeBytes_u64 {b : Bytes} (h : b.length = 8) : toLeBytes 8 (UInt64.ofNat (ofLeBytes b)).toNat = b := by
  have hlt : ofLeBytes b < 2^64 := by
    have := ofLeBytes_lt b
    rw [h] at this
    omega
  rw [UInt64.toNat_ofNat',Nat.mod_eq_of_lt hlt,toLeBytes_field h]

/-- A record whose header fields are those of `h` has that header. -/
lemma WalRecord.header_eq {h : Bytes} (hlen : h.length = walHeaderSize)
    (htotal : walHeaderSize+r.data.length = ofLeBytes (h.take 4))
    (hcrc : (crc32 r.crcInput).toNat = ofLeBytes ((h.drop 4).take 4))
    (htx : r.txId = UInt64.ofNat (ofLeBytes ((h.drop 8).take 8))) (htype : h.getD 16 0 = r.recordType.toU8)
    (hlsn : r.lsn = UInt64.ofNat (ofLeBytes ((h.drop 17).take 8))) : r.header = h := by
  have hfield : ∀ i n, i+n ≤ walHeaderSize → ((h.drop i).take n).length = n := by
    intro i n hle
    rw [length_take,length_drop]
    omega
  have hfirst : (h.take 4).length = 4 := hfield 0 4 (by decide)
  rw [header,htotal,hcrc,htx,hlsn,← htype,toLeBytes_field hfirst,
    toLeBytes_field (hfield 4 4 (by decide)),toLeBytes_u64 (hfield 8 8 (by decide)),
    toLeBytes_u64 (hfield 17 8 (by decide))]
  exact (header_fields hlen).symm

/-- What is read as a record is a record: its encoding stands there. -/
lemma encode_prefix_of_parseRecordAt {next : ℕ}
    (h : parseRecordAt file pos file.length = .record r next) :
    r.encode <+: file.drop pos ∧ r.data.length ≤ maxWalRecordSize := by
  rw [parseRecordAt] at h
  by_cases hshort : file.length < pos+walHeaderSize
  · rw [if_pos hshort] at h
    cases h
  rw [if_neg hshort] at h
  have hhlen : ((file.drop pos).take walHeaderSize).length = walHeaderSize := by
    rw [length_take,length_drop]
    omega
  have hsplit : file.drop pos = (file.drop pos).take walHeaderSize++file.drop (pos+walHeaderSize) := by
    rw [← drop_drop,take_append_drop]
  generalize (file.drop pos).take walHeaderSize = header at h hhlen hsplit
  cases htype : RecordType.fromU8 (header.getD 16 0) with
  | none =>
    simp only [htype] at h
    cases h
  | some t =>
    simp only [htype] at h
    split_ifs at h with hpast hless hbig hcrc
    obtain ⟨rfl,-⟩ := ParseOutcome.record.inj h
    have hdata : ((file.drop (pos+walHeaderSize)).take (ofLeBytes (header.take 4)-walHeaderSize)).length =
        ofLeBytes (header.take 4)-walHeaderSize := by
      rw [length_take,length_drop]
      omega
    refine ⟨?_,by rw [hdata]; omega⟩
    rw [WalRecord.encode_eq,WalRecord.header_eq hhlen (by rw [hdata]; omega) hcrc rfl
      (RecordType.fromU8_eq.mp htype) rfl,hsplit]
    exact (prefix_append_right_inj header).mpr (List.take_prefix _ _)

lemma isRecord_iff : (parseRecordAt file pos file.length).isRecord = true ↔
    ∃ r : WalRecord, r.data.length ≤ maxWalRecordSize ∧ r.encode <+: file.drop pos := by
  constructor
  · intro h
    cases hparse : parseRecordAt file pos file.length with
    | record r next =>
      have := encode_prefix_of_parseRecordAt hparse
      exact ⟨r,this.2,this.1⟩
    | eof | corrupt reason resumeAt =>
      rw [hparse] at h
      cases h
  · rintro ⟨r,hsize,rest,hrest⟩
    rw [parseRecordAt_encode hrest.symm hsize]
    rfl

/-- At any place of any file the reader takes a record exactly where its whole encoding stands. -/
theorem record_read_iff_encoded (file : Bytes) (pos next : ℕ) (r : WalRecord) :
    parseRecordAt file pos file.length = .record r next ↔
      r.data.length ≤ maxWalRecordSize ∧ r.encode <+: file.drop pos ∧ next = pos+r.encode.length := by
  constructor
  · intro h
    obtain ⟨⟨rest,hrest⟩,hsize⟩ := encode_prefix_of_parseRecordAt h
    rw [parseRecordAt_encode hrest.symm hsize] at h
    exact ⟨hsize,⟨rest,hrest⟩,(ParseOutcome.record.inj h).2.symm⟩
  · rintro ⟨hsize,⟨rest,hrest⟩,rfl⟩
    exact parseRecordAt_encode hrest.symm hsize

/-- Inside these bytes, past the first and within the probed window, stands a whole record. -/
def HoldsRecord (torn : Bytes) : Prop :=
  ∃ k, 0 < k ∧ k ≤ corruptionProbeWindow ∧
    ∃ r : WalRecord, r.data.length ≤ maxWalRecordSize ∧ r.encode <+: torn.drop k

lemma probeForValidRecord_none :
    probeForValidRecord file none pos file.length = none ↔ ¬HoldsRecord (file.drop pos) := by
  have hmem : ∀ k (r : WalRecord), r.encode <+: (file.drop pos).drop k → pos+k+walHeaderSize ≤ file.length := by
    intro k r hr
    have := hr.length_le
    have hhead : walHeaderSize = 25 := rfl
    rw [r.length_encode,length_drop,length_drop] at this
    omega
  simp only [probeForValidRecord,filter_none,find?_eq_none,mem_range'_1,isRecord_iff]
  constructor
  · rintro h ⟨k,hk,hwindow,r,hsize,hr⟩
    have := hmem k r hr
    exact h (pos+k) (by omega) ⟨r,hsize,by rwa [← drop_drop]⟩
  · rintro h c hc ⟨r,hsize,hr⟩
    refine h ⟨c-pos,by omega,by omega,r,hsize,?_⟩
    rwa [drop_drop,Nat.add_sub_cancel' (by omega)]

instance (torn : Bytes) : Decidable (HoldsRecord torn) :=
  decidable_of_iff (probeForValidRecord torn none 0 torn.length ≠ none)
    ((not_congr probeForValidRecord_none).trans not_not)

/-- The records that end within the first `n` bytes. -/
def complete : List WalRecord → ℕ → List WalRecord
  | [], _ => []
  | r::rs, n => if r.encode.length ≤ n then r::complete rs (n-r.encode.length) else []

/-- What the first `n` bytes hold of the record that does not end within them. -/
def tornBytes : List WalRecord → ℕ → Bytes
  | [], _ => []
  | r::rs, n => if r.encode.length ≤ n then tornBytes rs (n-r.encode.length) else r.encode.take n

lemma take_flatMap_encode (rs : List WalRecord) (n : ℕ) :
    (rs.flatMap WalRecord.encode).take n = (complete rs n).flatMap WalRecord.encode++tornBytes rs n := by
  induction rs generalizing n with
  | nil => simp [complete,tornBytes]
  | cons r rs ih =>
    rw [flatMap_cons,take_append,complete,tornBytes]
    by_cases h : r.encode.length ≤ n
    · rw [if_pos h,if_pos h,take_of_length_le h,ih,flatMap_cons,append_assoc]
    · rw [if_neg h,if_neg h,Nat.sub_eq_zero_of_le (by omega),take_zero]
      simp

lemma complete_subset (rs : List WalRecord) (n : ℕ) : ∀ r ∈ complete rs n, r ∈ rs := by
  induction rs generalizing n with
  | nil => simp [complete]
  | cons r rs ih =>
    intro r' hr'
    rw [complete] at hr'
    split at hr'
    · rcases mem_cons.mp hr' with rfl | hr'
      · exact mem_cons_self
      · exact mem_cons_of_mem _ (ih _ r' hr')
    · cases hr'

lemma tornBytes_cases (rs : List WalRecord) (n : ℕ) : tornBytes rs n = [] ∨
    ∃ r : WalRecord, r ∈ rs ∧ ∃ m < r.encode.length, tornBytes rs n = r.encode.take m := by
  induction rs generalizing n with
  | nil => exact .inl rfl
  | cons r rs ih =>
    rw [tornBytes]
    by_cases h : r.encode.length ≤ n
    · rw [if_pos h]
      apply (ih (n-r.encode.length)).imp id
      rintro ⟨r',hr',m,hm,heq⟩
      exact ⟨r',mem_cons_of_mem _ hr',m,hm,heq⟩
    · rw [if_neg h]
      exact .inr ⟨r,mem_cons_self,n,by omega,rfl⟩

/-- The loop goes through whole records. -/
lemma run_parseTurn (fuel : ℕ) (rs : List WalRecord)
    (hsize : ∀ r ∈ rs, r.data.length ≤ maxWalRecordSize) (pos : ℕ) (acc : List WalRecord)
    (hfile : file.drop pos = rs.flatMap WalRecord.encode++torn) :
    Turn.run (parseTurn file file.length) (fuel+rs.length) (pos,acc) =
      (Turn.run (parseTurn file file.length) fuel
        (pos+(rs.flatMap WalRecord.encode).length,acc++rs)).map (fun x => (x.1,x.2+rs.length)) := by
  induction rs generalizing pos acc with
  | nil => simp
  | cons r rs ih =>
    rw [flatMap_cons,append_assoc] at hfile
    have hturn : parseTurn file file.length (pos,acc) = .again (pos+r.encode.length,acc++[r]) := by
      rw [parseTurn,parseRecordAt_encode hfile (hsize r mem_cons_self)]
    have hrest : file.drop (pos+r.encode.length) = rs.flatMap WalRecord.encode++torn := by
      rw [← drop_drop,hfile,drop_left' rfl]
    rw [length_cons,← Nat.add_assoc,Turn.run,hturn]
    simp only
    rw [ih (fun r' hr' => hsize r' (mem_cons_of_mem _ hr')) _ _ hrest]
    simp [Function.comp_def,Nat.add_assoc]

lemma parseRecordAt_torn (hsize : r.data.length ≤ maxWalRecordSize)
    (hm : m < r.encode.length) (hfile : file.drop pos = r.encode.take m) :
    parseRecordAt file pos file.length = if m < walHeaderSize then .eof else .corrupt .pastEnd none := by
  have hlen : file.length-pos = m := by
    rw [← length_drop,hfile,length_take]
    omega
  have hmax : maxWalRecordSize = 268435456 := rfl
  have hhead : walHeaderSize = 25 := rfl
  have hpos : m < walHeaderSize → file.length < pos+walHeaderSize := by omega
  rw [r.length_encode] at hm
  by_cases hshort : m < walHeaderSize
  · rw [if_pos hshort,parseRecordAt,if_pos (hpos hshort)]
  · have hheader : (file.drop pos).take walHeaderSize = r.header := by
      rw [hfile,r.encode_eq,take_take,Nat.min_eq_left (by omega),take_left' r.length_header]
    have htotal : ofLeBytes (r.header.take 4) = walHeaderSize+r.data.length :=
      ofLeBytes_toLeBytes 4 _ (by omega)
    have htype : RecordType.fromU8 (r.header.getD 16 0) = some r.recordType := RecordType.fromU8_eq.mpr rfl
    rw [if_neg hshort,parseRecordAt,if_neg (by omega)]
    simp only [hheader,htype]
    rw [if_pos (by omega)]

/-- At the torn record the loop ends, well exactly when no record stands inside it. -/
lemma parseTurn_torn (acc : List WalRecord)
    (hsize : ∀ r ∈ rs, r.data.length ≤ maxWalRecordSize) (hfile : file.drop pos = tornBytes rs n) :
    ∃ result, parseTurn file file.length (pos,acc) = .done result ∧
      (result = .ok acc ↔ ¬HoldsRecord (tornBytes rs n)) := by
  have hshort : ∀ b : Bytes, b.length < walHeaderSize → ¬HoldsRecord b := by
    rintro b hb ⟨k,-,-,r,-,hr⟩
    have := hr.length_le
    rw [r.length_encode,length_drop] at this
    omega
  rcases tornBytes_cases rs n with hnil | ⟨r,hr,m,hm,htorn⟩
  · refine ⟨.ok acc,?_,iff_of_true rfl (hshort _ (by rw [hnil]; decide))⟩
    have heof : file.length < pos+walHeaderSize := by
      have := congrArg length hfile
      have hhead : walHeaderSize = 25 := rfl
      rw [hnil,length_drop,length_nil] at this
      omega
    rw [parseTurn,parseRecordAt,if_pos heof]
  · rw [htorn] at hfile
    have hparse := parseRecordAt_torn (hsize r hr) hm hfile
    by_cases hlt : m < walHeaderSize
    · refine ⟨.ok acc,?_,iff_of_true rfl (hshort _ ?_)⟩
      · rw [parseTurn,hparse,if_pos hlt]
      · rw [htorn,length_take]
        omega
    · rw [if_neg hlt] at hparse
      rw [htorn,← hfile,← probeForValidRecord_none]
      rw [parseTurn]
      simp only [hparse]
      cases probeForValidRecord file none pos file.length with
      | none => exact ⟨.ok acc,rfl,iff_of_true rfl rfl⟩
      | some found => exact ⟨_,rfl,iff_of_false nofun nofun⟩

/-- The records a run of appends writes, numbered from `lsn`. -/
def appended (lsn : UInt64) : List (UInt64 × RecordType × Bytes) → List WalRecord
  | [] => []
  | (txId,recordType,data)::rest => ⟨txId,recordType,lsn,data⟩::appended (lsn+1) rest

def Wal.appendAll (w : Wal) (rows : List (UInt64 × RecordType × Bytes)) : Wal :=
  rows.foldl (fun w x => w.append x.1 x.2.1 x.2.2) w

lemma Wal.appendAll_contents (w : Wal) (rows : List (UInt64 × RecordType × Bytes)) :
    (w.appendAll rows).contents = w.contents++(appended w.nextLsn rows).flatMap WalRecord.encode := by
  induction rows generalizing w with
  | nil => simp [appendAll,appended]
  | cons x rows ih =>
    have := ih (w.append x.1 x.2.1 x.2.2)
    rw [appendAll] at this ⊢
    rw [foldl_cons,this]
    simp [append,appended]

lemma appended_data (lsn : UInt64)
    (h : ∀ x ∈ rows, x.2.2.length ≤ n) : ∀ r ∈ appended lsn rows, r.data.length ≤ n := by
  induction rows generalizing lsn with
  | nil => simp [appended]
  | cons x rows ih =>
    intro r hr
    rcases mem_cons.mp hr with rfl | hr
    · exact h x mem_cons_self
    · exact ih (lsn+1) (fun y hy => h y (mem_cons_of_mem _ hy)) r hr

lemma length_le_flatMap_encode (rs : List WalRecord) : rs.length ≤ (rs.flatMap WalRecord.encode).length := by
  induction rs with
  | nil => exact le_rfl
  | cons r rs ih =>
    have hhead : walHeaderSize = 25 := rfl
    rw [flatMap_cons,length_append,r.length_encode,length_cons]
    omega

/-- Reading a file header, whole records and the bytes of a torn one. -/
lemma readAll_torn (hsize : ∀ r ∈ rs, r.data.length ≤ maxWalRecordSize) (n : ℕ) :
    readAll (fileHeader++((complete rs n).flatMap WalRecord.encode++tornBytes rs n)) =
      some (.ok (complete rs n)) ↔ ¬HoldsRecord (tornBytes rs n) := by
  generalize hfile : fileHeader++((complete rs n).flatMap WalRecord.encode++tornBytes rs n) = file
  have hlen : walFileHeaderSize+(complete rs n).length ≤ file.length := by
    have := length_le_flatMap_encode (complete rs n)
    have hhead : walFileHeaderSize = fileHeader.length := rfl
    rw [← hfile,hhead,length_append,length_append]
    omega
  have hstart : walRecordsStart file = .ok walFileHeaderSize := by
    have hmagic : file.take 4 = walMagic := by
      rw [← hfile]
      rfl
    have hversion : ofLeBytes ((file.drop 4).take 2) = walFormatVersion := by
      rw [← hfile]
      rfl
    rw [walRecordsStart,if_pos (by omega),if_pos hmagic]
    simp only [hversion,if_true]
  have hrecords : file.drop walFileHeaderSize = (complete rs n).flatMap WalRecord.encode++tornBytes rs n := by
    rw [← hfile]
    exact drop_left' rfl
  have htorn : file.drop (walFileHeaderSize+((complete rs n).flatMap WalRecord.encode).length) = tornBytes rs n := by
    rw [← drop_drop,hrecords,drop_left' rfl]
  obtain ⟨result,hturn,hresult⟩ := parseTurn_torn ([]++complete rs n) hsize htorn
  have hfuel : file.length+1 = file.length-(complete rs n).length+1+(complete rs n).length := by omega
  rw [readAll,parseWalRecords,hstart]
  simp only [Nat.min_self]
  rw [hfuel,run_parseTurn _ (complete rs n) (fun r hr => hsize r (complete_subset rs n r hr)) _ _ hrecords,
    Turn.run,hturn]
  simp only [map_some,some.injEq]
  exact hresult

/-- A log cut off anywhere behind its file header is read back to exactly the records that are
whole, if and only if the bytes left of the cut record hold no record of their own. -/
theorem torn_tail_read_iff (lsn : UInt64) (rows : List (UInt64 × RecordType × Bytes))
    (hsize : ∀ x ∈ rows, x.2.2.length ≤ maxWalRecordSize) (n : ℕ) (hn : walFileHeaderSize ≤ n) :
    readAll (((Wal.create lsn).appendAll rows).contents.take n) =
        some (.ok (complete (appended lsn rows) (n-walFileHeaderSize))) ↔
      ¬HoldsRecord (tornBytes (appended lsn rows) (n-walFileHeaderSize)) := by
  have hrecords := appended_data lsn hsize
  have hcut : ((Wal.create lsn).appendAll rows).contents.take n = fileHeader++
      ((complete (appended lsn rows) (n-walFileHeaderSize)).flatMap WalRecord.encode++
        tornBytes (appended lsn rows) (n-walFileHeaderSize)) := by
    rw [Wal.appendAll_contents,take_append,← take_flatMap_encode]
    congr 1
    exact take_of_length_le hn
  rw [hcut]
  exact readAll_torn hrecords _

section examples

def commitBytes : Bytes := (⟨1,.commit,2,[]⟩ : WalRecord).encode

/-- An insert whose row ends in the bytes of a commit record, and a commit. -/
def copiedLog : List (UInt64 × RecordType × Bytes) := [(1,.begin,[]),(1,.insert,commitBytes++[0]),(1,.commit,[])]

/-- Cut inside the copied record the log is read back to its first record. -/
theorem copiedLog_cut_inside :
    readAll (((Wal.create 1).appendAll copiedLog).contents.take 82) = some (.ok [⟨1,.begin,1,[]⟩]) := by
  have h := (torn_tail_read_iff 1 copiedLog (by decide) 82 (by decide)).mpr (by decide +kernel)
  rw [h,show complete (appended 1 copiedLog) (82-walFileHeaderSize) = [⟨1,.begin,1,[]⟩] from by decide +kernel]

/-- Cut one byte later, behind the copy, the same log cannot be read. -/
theorem copiedLog_read_as_damage :
    readAll (((Wal.create 1).appendAll copiedLog).contents.take 83) =
      some (.error (.damageInside 33 .pastEnd 58)) ∧
    complete (appended 1 copiedLog) (83-walFileHeaderSize) = [⟨1,.begin,1,[]⟩] := by
  decide +kernel

end examples

end PowDB.Storage.WalFile
