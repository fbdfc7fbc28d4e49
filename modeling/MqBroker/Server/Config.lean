import MqBroker.Storage.Directory

/-!
# The Configuration File

`LoadConfig` and what it calls. A file is lines with a key and a value on two sides of
the first equals sign, blank lines and comments. A key that is not known and a value
that is not accepted are the same error.

Numbers are what `std::stoull` takes with base 0: hexadecimal with `0x`, octal with a
leading zero, decimal otherwise, and a minus sign takes the number from 2^64. All of
the text has to be the number.

## Main definitions

* `Config`: What the file can set, and the defaults.
* `stoullBase0`, `configNumber`, `parseSize`: The numbers of the file.
* `loadConfig`: Reading a file.

## Theorems

* `configNumber_decimal`: A number that is written out is accepted.
* `loadConfig_retentionHours`: A file can set any retention.
-/

namespace MqBroker

/-! ## Numbers -/

/-- The value of a digit or letter, or 36 for anything else. -/
def digitOf (byte : UInt8) : Nat :=
  if isDigit byte then byte.toNat - 48
  else if 97 ≤ byte ∧ byte ≤ 122 then byte.toNat - 87
  else if 65 ≤ byte ∧ byte ≤ 90 then byte.toNat - 55
  else 36

/-- The base that a text without its sign is in, and how long the mark of the base is.
    A leading zero of an octal number is one of its digits. -/
def baseOf (text : Bytes) : Nat × Nat :=
  match text with
  | 48 :: mark :: digit :: _ =>
      if (mark = 120 ∨ mark = 88) ∧ digitOf digit < 16 then (16, 2) else (8, 0)
  | 48 :: _ => (8, 0)
  | _ => (10, 0)

/-- `std::stoull` with base 0: the number at the front of a text, and how many bytes it
    takes up. Without a digit it throws, and with a number that does not fit. -/
def stoullBase0 (text : Bytes) : Option (UInt64 × Nat) :=
  let space := text.takeWhile isSpace
  let rest := text.dropWhile isSpace
  let signed := rest.head? = some 43 ∨ rest.head? = some 45
  let unsigned := if signed then rest.tail else rest
  let base := baseOf unsigned
  let digits := (unsigned.drop base.2).takeWhile (fun byte => digitOf byte < base.1)
  let value := Nat.ofDigits base.1 (digits.reverse.map digitOf)
  let used := space.length + (if signed then 1 else 0) + base.2 + digits.length
  if digits = [] ∨ 2 ^ 64 ≤ value then none
  else if rest.head? = some 45 then some (-UInt64.ofNat value, used)
  else some (UInt64.ofNat value, used)

/-- `Number`: all of the text is a number. -/
def configNumber (text : Bytes) : Option UInt64 :=
  match stoullBase0 text with
  | none => none
  | some (value, used) => if used = text.length then some value else none

/-- The characters that `Trim` takes off. -/
def isBlank (byte : UInt8) : Bool := byte = 32 || byte = 9 || byte = 13 || byte = 10

/-- `Trim`. -/
def trim (text : Bytes) : Bytes :=
  ((text.dropWhile isBlank).reverse.dropWhile isBlank).reverse

/-- The unit at the end of a size, and the text in front of it. -/
def sizeUnit (text : Bytes) : Bytes × UInt64 :=
  let last := text.drop (text.length - 2)
  if text.length > 2 ∧ (last = "Mi".toUTF8.toList ∨ last = "mi".toUTF8.toList) then
    (text.take (text.length - 2), 1024 * 1024)
  else if text.length > 1 ∧ (text.getLast? = some 77 ∨ text.getLast? = some 109) then
    (text.dropLast, 1024 * 1024)
  else if text.length > 1 ∧ (text.getLast? = some 71 ∨ text.getLast? = some 103) then
    (text.dropLast, 1024 * 1024 * 1024)
  else (text, 1)

/-- `ParseSize`: a number with a unit, if the product fits. -/
def parseSize (text : Bytes) : Option UInt64 :=
  let unit := sizeUnit (trim text)
  match configNumber (trim unit.1) with
  | none => none
  | some number =>
      if number ≤ 18446744073709551615 / unit.2 then some (number * unit.2) else none

/-! ## Configuration -/

/-- An element of `replica_peers`. -/
structure ConfigPeer where
  nodeId : Bytes
  host : Bytes
  port : UInt16
  leader : Bool
deriving DecidableEq, Repr

/-- `Config`. -/
structure Config where
  bindAddress : Bytes := "127.0.0.1".toUTF8.toList
  bindPort : UInt16 := 9092
  dataDir : Bytes := "data".toUTF8.toList
  subReactorThreads : UInt64 := 0
  segmentSize : UInt64 := 64 * 1024 * 1024
  retentionHours : UInt64 := 168
  produceRateLimit : UInt64 := 0
  topicProduceQuotaBytes : UInt64 := 0
  logFile : Bytes := []
  nodeId : Bytes := "node-local".toUTF8.toList
  replicaFollower : Bool := false
  replicationAuthToken : Bytes := []
  clientAuthToken : Bytes := []
  clientAuthPermissions : Bytes := []
  clientAuthProduceTopics : Bytes := []
  clientAuthConsumeTopics : Bytes := []
  tlsEnabled : Bool := false
  tlsCertificateFile : Bytes := []
  tlsPrivateKeyFile : Bytes := []
  tlsCaFile : Bytes := []
  tlsRequireClientCertificate : Bool := false
  replicaPeers : List ConfigPeer := []
deriving DecidableEq, Repr

/-- The parts of a text between separators. Nothing behind the last separator is no
    part. -/
def parts (separator : UInt8) (text : Bytes) : List Bytes :=
  let all := text.splitOn separator
  if all.getLast? = some [] then all.dropLast else all

/-- One element of `replica_peers`: a node, a host and a port, with colons between. -/
def readPeer (follower : Bool) (item : Bytes) : Except Bytes ConfigPeer :=
  let host := (item.dropWhile (· ≠ 58)).tail
  let port := (host.dropWhile (· ≠ 58)).tail
  if 58 ∉ item ∨ 58 ∉ host then .error "invalid replica_peers".toUTF8.toList
  else
    match configNumber port with
    | none => .error "invalid replica port".toUTF8.toList
    | some number =>
        if number > 65535 then .error "invalid replica port".toUTF8.toList
        else .ok
          { nodeId := item.takeWhile (· ≠ 58)
            host := host.takeWhile (· ≠ 58)
            port := number.toUInt16
            leader := follower }

/-- What a flag is set to. -/
def isTrueText (value : Bytes) : Bool :=
  value = "true".toUTF8.toList || value = "1".toUTF8.toList

/-- The keys of the file. -/
inductive ConfigKey
  | bindAddress | bindPort | dataDir | subReactorThreads | segmentSize | retentionHours
  | produceRateLimit | topicProduceQuotaBytes | logFile | nodeId | replicaRole
  | replicationAuthToken | clientAuthToken | clientAuthPermissions | clientAuthProduceTopics
  | clientAuthConsumeTopics | tlsEnabled | tlsCertificateFile | tlsPrivateKeyFile | tlsCaFile
  | tlsRequireClientCertificate | replicaPeers
deriving DecidableEq

/-- The keys with their names, in the order in which a line is compared with them. -/
def configKeys : List (Bytes × ConfigKey) :=
  [("bind_address".toUTF8.toList, .bindAddress), ("bind_port".toUTF8.toList, .bindPort),
    ("data_dir".toUTF8.toList, .dataDir),
    ("sub_reactor_threads".toUTF8.toList, .subReactorThreads),
    ("segment_size".toUTF8.toList, .segmentSize),
    ("retention_hours".toUTF8.toList, .retentionHours),
    ("produce_rate_limit".toUTF8.toList, .produceRateLimit),
    ("topic_produce_quota_bytes".toUTF8.toList, .topicProduceQuotaBytes),
    ("log_file".toUTF8.toList, .logFile), ("node_id".toUTF8.toList, .nodeId),
    ("replica_role".toUTF8.toList, .replicaRole),
    ("replication_auth_token".toUTF8.toList, .replicationAuthToken),
    ("client_auth_token".toUTF8.toList, .clientAuthToken),
    ("client_auth_permissions".toUTF8.toList, .clientAuthPermissions),
    ("client_auth_produce_topics".toUTF8.toList, .clientAuthProduceTopics),
    ("client_auth_consume_topics".toUTF8.toList, .clientAuthConsumeTopics),
    ("tls_enabled".toUTF8.toList, .tlsEnabled),
    ("tls_certificate_file".toUTF8.toList, .tlsCertificateFile),
    ("tls_private_key_file".toUTF8.toList, .tlsPrivateKeyFile),
    ("tls_ca_file".toUTF8.toList, .tlsCaFile),
    ("tls_require_client_certificate".toUTF8.toList, .tlsRequireClientCertificate),
    ("replica_peers".toUTF8.toList, .replicaPeers)]

/-- What a line with a known key does to the configuration, if its value is accepted. -/
def Config.set (config : Config) (value : Bytes) : ConfigKey → Option Config
  | .bindAddress => some { config with bindAddress := value }
  | .bindPort =>
      match configNumber value with
      | none => none
      | some number =>
          if number ≤ 65535 then some { config with bindPort := number.toUInt16 } else none
  | .dataDir => some { config with dataDir := value }
  | .subReactorThreads =>
      (configNumber value).map fun number => { config with subReactorThreads := number }
  | .segmentSize => (parseSize value).map fun number => { config with segmentSize := number }
  | .retentionHours =>
      (configNumber value).map fun number => { config with retentionHours := number }
  | .produceRateLimit =>
      (configNumber value).map fun number => { config with produceRateLimit := number }
  | .topicProduceQuotaBytes =>
      (parseSize value).map fun number => { config with topicProduceQuotaBytes := number }
  | .logFile => some { config with logFile := value }
  | .nodeId => some { config with nodeId := value }
  | .replicaRole => some { config with replicaFollower := value = "follower".toUTF8.toList }
  | .replicationAuthToken => some { config with replicationAuthToken := value }
  | .clientAuthToken => some { config with clientAuthToken := value }
  | .clientAuthPermissions => some { config with clientAuthPermissions := value }
  | .clientAuthProduceTopics => some { config with clientAuthProduceTopics := value }
  | .clientAuthConsumeTopics => some { config with clientAuthConsumeTopics := value }
  | .tlsEnabled => some { config with tlsEnabled := isTrueText value }
  | .tlsCertificateFile => some { config with tlsCertificateFile := value }
  | .tlsPrivateKeyFile => some { config with tlsPrivateKeyFile := value }
  | .tlsCaFile => some { config with tlsCaFile := value }
  | .tlsRequireClientCertificate =>
      some { config with tlsRequireClientCertificate := isTrueText value }
  | .replicaPeers => none

/-- What a line does. `replica_peers` has errors of its own. -/
def Config.setLine (config : Config) (key value : Bytes) : Except Bytes Config :=
  match configKeys.lookup key with
  | some .replicaPeers => do
      let peers ← (parts 59 value).mapM (readPeer config.replicaFollower)
      return { config with replicaPeers := config.replicaPeers ++ peers }
  | some known =>
      match config.set value known with
      | some next => .ok next
      | none => .error ("invalid config value for ".toUTF8.toList ++ key)
  | none => .error ("invalid config value for ".toUTF8.toList ++ key)

/-- The loop of `LoadConfig` over the lines, the first of which has this number. -/
def loadLines : List Bytes → Nat → Config → Except Bytes Config
  | [], _, config => .ok config
  | line :: lines, number, config =>
      let line := trim line
      if line = [] ∨ line.head? = some 35 ∨ line.head? = some 59 then
        loadLines lines (number + 1) config
      else if 61 ∉ line then .error ("invalid config line ".toUTF8.toList ++ decimal number)
      else do
        let next ← config.setLine (trim (line.takeWhile (· ≠ 61)))
          (trim (line.dropWhile (· ≠ 61)).tail)
        loadLines lines (number + 1) next

/-- `LoadConfig`, for the contents of the file. In the end every peer gets the role of
    a leader or not. -/
def loadConfig (text : Bytes) : Except Bytes Config := do
  let config ← loadLines (parts 10 text) 1 {}
  return { config with
    replicaPeers := config.replicaPeers.map fun peer =>
      { peer with leader := config.replicaFollower } }

/-! ## Accepted values -/

/-- A digit is its own value. -/
theorem digitOf_of_isDigit {b : UInt8} (h : isDigit b = true) :
    digitOf b = b.toNat - 48 ∧ digitOf b < 10 := by
  have hb := (isDigit_iff b).mp h
  rw [digitOf, if_pos h]
  exact ⟨rfl, by omega⟩

/-- A number is written with digits. -/
theorem isDigit_of_mem_decimal {n : Nat} {b : UInt8} (h : b ∈ decimal n) : isDigit b = true :=
  (isDigit_iff b).mpr (mem_decimal n b h)

/-- A positive number is written without a leading zero. -/
theorem decimal_head {n : Nat} (hn : n ≠ 0) :
    ∃ first rest, decimal n = first :: rest ∧ first ≠ 48 := by
  have hdigits : Nat.digits 10 n ≠ [] := Nat.digits_ne_nil_iff_ne_zero.mpr hn
  have hlast := Nat.getLast_digit_ne_zero 10 hn
  have hlt : (Nat.digits 10 n).getLast hdigits < 10 :=
    Nat.digits_lt_base (by decide) (List.getLast_mem hdigits)
  rw [decimal, if_neg hn]
  -- The most significant digit is the last of the list of digits.
  rw [← List.dropLast_append_getLast hdigits, List.reverse_append, List.reverse_singleton,
    List.singleton_append, List.map_cons]
  refine ⟨_, _, rfl, fun heq => hlast ?_⟩
  have hnat := congrArg UInt8.toNat heq
  rw [toNat_digit _ hlt] at hnat
  change 48 + _ = 48 at hnat
  omega

/-- Without a leading zero a number is decimal. -/
theorem baseOf_of_ne {first : UInt8} (rest : Bytes) (h : first ≠ 48) :
    baseOf (first :: rest) = (10, 0) := by
  rw [baseOf]
  · exact fun mark digit tail heq => h (List.cons.inj heq).1
  · exact fun tail heq => h (List.cons.inj heq).1

/-- Digits are no white space and no sign. -/
theorem not_space_of_isDigit {b : UInt8} (h : isDigit b = true) :
    isSpace b = false ∧ b ≠ 43 ∧ b ≠ 45 := by
  have hb := (isDigit_iff b).mp h
  refine ⟨?_, ?_, ?_⟩
  · rw [isSpace, Bool.or_eq_false_iff, Bool.and_eq_false_iff, decide_eq_false_iff_not,
      decide_eq_false_iff_not, decide_eq_false_iff_not, UInt8.le_iff_toNat_le,
      UInt8.le_iff_toNat_le, ← UInt8.toNat_inj]
    simp only [UInt8.reduceToNat]
    omega
  · rintro rfl
    exact absurd hb.1 (by decide)
  · rintro rfl
    exact absurd hb.1 (by decide)

/-- A number that is written out is accepted. -/
theorem configNumber_decimal (number : UInt64) :
    configNumber (decimal number.toNat) = some number := by
  by_cases hzero : number = 0
  · subst hzero
    decide +kernel
  have hne : number.toNat ≠ 0 := fun h => hzero (UInt64.toNat_inj.mp h)
  have hdigits : ∀ b ∈ decimal number.toNat, isDigit b = true :=
    fun b hb => isDigit_of_mem_decimal hb
  have hvalue : Nat.ofDigits 10 ((decimal number.toNat).reverse.map digitOf) = number.toNat := by
    rw [List.map_congr_left (g := fun b => b.toNat - 48)
      (fun b hb => (digitOf_of_isDigit (hdigits b (List.mem_reverse.mp hb))).1)]
    exact decimalValue_decimal number.toNat
  have hall : (decimal number.toNat).takeWhile (fun byte => decide (digitOf byte < 10)) =
      decimal number.toNat := by
    rw [List.takeWhile_eq_self_iff]
    exact fun b hb => decide_eq_true (digitOf_of_isDigit (hdigits b hb)).2
  have hlt := number.toNat_lt
  obtain ⟨first, rest, hdecimal, hfirst⟩ := decimal_head hne
  rw [hdecimal] at hdigits hvalue hall ⊢
  obtain ⟨hspace, hplus, hminus⟩ := not_space_of_isDigit (hdigits first List.mem_cons_self)
  have htake : (first :: rest).takeWhile isSpace = [] := by
    rw [List.takeWhile_cons, if_neg (ne_true_of_eq_false hspace)]
  have hdrop : (first :: rest).dropWhile isSpace = first :: rest := by
    rw [List.dropWhile_cons, if_neg (ne_true_of_eq_false hspace)]
  have hstoull : stoullBase0 (first :: rest) = some (number, (first :: rest).length) := by
    simp only [stoullBase0, htake, hdrop, if_false, List.head?_cons, Option.some.injEq, hplus,
      hminus, or_self, baseOf_of_ne rest hfirst, List.drop_zero, hall, hvalue,
      UInt64.ofNat_toNat, List.length_nil, Nat.zero_add]
    rw [if_neg]
    rintro (hnil | hlarge)
    · exact nomatch hnil
    · omega
  rw [configNumber, hstoull]
  exact if_pos rfl

/-- There is nothing to take off a text without blanks. -/
theorem trim_of_not_blank {text : Bytes} (h : ∀ b ∈ text, isBlank b = false) :
    trim text = text := by
  have hkeep : ∀ t : Bytes, (∀ b ∈ t, isBlank b = false) → t.dropWhile isBlank = t := by
    intro t ht
    cases t with
    | nil => rfl
    | cons b t =>
        rw [List.dropWhile_cons, if_neg (ne_true_of_eq_false (ht b List.mem_cons_self))]
  rw [trim, hkeep text h, hkeep _ fun b hb => h b (List.mem_reverse.mp hb), List.reverse_reverse]

/-- A line with a key and a value. -/
def configLine (key value : Bytes) : Bytes := key ++ 61 :: value

/-- A line is divided at its first equals sign. -/
theorem configLine_split {key value : Bytes} (hkey : ∀ b ∈ key, b ≠ 61) :
    (configLine key value).takeWhile (· ≠ 61) = key ∧
      ((configLine key value).dropWhile (· ≠ 61)).tail = value := by
  have hall : ∀ b ∈ key, decide (b ≠ 61) = true := fun b hb => decide_eq_true (hkey b hb)
  have hstop : ¬decide ((61 : UInt8) ≠ 61) = true := by decide
  constructor
  · rw [configLine, List.takeWhile_append_of_pos hall, List.takeWhile_cons, if_neg hstop,
      List.append_nil]
  · rw [configLine, List.dropWhile_append_of_pos hall, List.dropWhile_cons, if_neg hstop,
      List.tail_cons]

/-- `retention_hours` as it stands in a file. -/
def retentionKey : Bytes := "retention_hours".toUTF8.toList

/-- A file can set any retention. -/
theorem loadConfig_retentionHours (hours : UInt64) :
    loadConfig (configLine retentionKey (decimal hours.toNat)) =
      .ok { retentionHours := hours } := by
  have hdigits : ∀ b ∈ decimal hours.toNat, 48 ≤ b.toNat ∧ b.toNat < 58 := mem_decimal hours.toNat
  have hkey : ∀ b ∈ retentionKey, isBlank b = false ∧ b ≠ 61 ∧ b ≠ 10 := by decide +kernel
  have hvalue : ∀ b ∈ decimal hours.toNat, isBlank b = false ∧ b ≠ 10 := by
    intro b hb
    have hrange := hdigits b hb
    have hne : ∀ c : UInt8, c.toNat < 48 → b ≠ c := by
      rintro c hc rfl
      omega
    refine ⟨?_, hne 10 (by decide)⟩
    simp only [isBlank, hne 32 (by decide), hne 9 (by decide), hne 13 (by decide),
      hne 10 (by decide), decide_false, Bool.or_self]
  have hline : ∀ b ∈ configLine retentionKey (decimal hours.toNat), isBlank b = false ∧ b ≠ 10 := by
    intro b hb
    rw [configLine, List.mem_append, List.mem_cons] at hb
    rcases hb with hb | rfl | hb
    · exact ⟨(hkey b hb).1, (hkey b hb).2.2⟩
    · decide
    · exact hvalue b hb
  have hequal : (61 : UInt8) ∈ configLine retentionKey (decimal hours.toNat) :=
    List.mem_append_right _ List.mem_cons_self
  -- The file is one line, and nothing is taken off it.
  have hparts : parts 10 (configLine retentionKey (decimal hours.toNat)) =
      [configLine retentionKey (decimal hours.toNat)] := by
    have hsplit : (configLine retentionKey (decimal hours.toNat)).splitOn 10 =
        [configLine retentionKey (decimal hours.toNat)] :=
      List.splitOn_eq_singleton fun hmem => (hline 10 hmem).2 rfl
    rw [parts, hsplit]
    refine if_neg fun hlast => ?_
    exact List.ne_nil_of_mem hequal (Option.some.inj hlast)
  have hhead : (configLine retentionKey (decimal hours.toNat)).head? = some 114 := by
    have hfirst : retentionKey.head? = some 114 := by decide +kernel
    rw [configLine, List.head?_append, hfirst]
    rfl
  obtain ⟨hleft, hright⟩ := @configLine_split retentionKey (decimal hours.toNat)
    fun b hb => (hkey b hb).2.1
  have hlookup : configKeys.lookup retentionKey = some .retentionHours := by decide +kernel
  have hset : ({} : Config).setLine retentionKey (decimal hours.toNat) =
      .ok { retentionHours := hours } := by
    simp only [Config.setLine, hlookup, Config.set, configNumber_decimal, Option.map_some]
  have hload : loadLines [configLine retentionKey (decimal hours.toNat)] 1 {} =
      .ok { retentionHours := hours } := by
    have hnone : ¬(configLine retentionKey (decimal hours.toNat) = [] ∨
        some (114 : UInt8) = some 35 ∨ some (114 : UInt8) = some 59) := by
      rintro (hnil | hhash | hsemicolon)
      · exact List.ne_nil_of_mem hequal hnil
      · exact absurd hhash (by decide)
      · exact absurd hsemicolon (by decide)
    simp only [loadLines, trim_of_not_blank fun b hb => (hline b hb).1, hhead, hleft, hright,
      trim_of_not_blank fun b hb => (hkey b hb).1, trim_of_not_blank fun b hb => (hvalue b hb).1,
      if_neg hnone, if_neg (not_not.mpr hequal), hset]
    rfl
  rw [loadConfig, hparts, hload]
  rfl

end MqBroker
