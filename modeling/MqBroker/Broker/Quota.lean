import MqBroker.Broker.State
import MqBroker.Lib.FixedWindows
import MqBroker.Lib.Runs

/-!
# The Quota of a Topic

What `AllowTopicBytes` lets through over time.

The quota is meant for every second. The broker counts in windows of a second
that follow one another, and a window starts from nothing. What one window has
let through at its end and what the next one lets through at its beginning can
be less than a second apart, and nobody adds them up: up to twice the quota.

A window is exact about itself: its bytes stay within the quota, so that neither
the subtraction nor the addition ever wraps around, and what a call answers is
what numbers would answer. So the calls that are let through are those for which
there is room in their windows (`run_entries`), and the windows depend only on
when the calls come. Whether the quota is kept in every second can be told from
the times and the sizes of the calls.

## Main definitions

* `Metered`: A broker with what its quota has let through.
* `Metered.call`: A call of `AllowTopicBytes`.
* `asked`: The calls for a topic that are not too large for any window.
* `Broker.QuotaExact`: The arithmetic of a call is that of numbers.

## Theorems

* `quotaExact`: No call overflows or underflows.
* `Metered.run_entries`: What a run lets through.
* `topicQuota_iff`: When a run keeps to the quota.
-/

namespace MqBroker

/-- A second, in nanoseconds. -/
def quotaSecond : Int := 1000000000

/-- `ConfigureTopicQuota`. -/
def Broker.configureTopicQuota (b : Broker) (produceBytesPerSecond : UInt64) : Broker :=
  { b with topicProduceQuota := produceBytesPerSecond, topicQuotaWindows := ∅ }

/-- A call of `AllowTopicBytes` at a time. -/
structure QuotaCall where
  now : Int
  topic : Bytes
  bytes : UInt64
deriving DecidableEq, Repr

/-- A broker with the calls that its quota has let through, the latest one
    first. -/
structure Metered where
  broker : Broker
  admitted : List QuotaCall := []

/-- A call, remembered when it is let through. -/
def Metered.call (m : Metered) (c : QuotaCall) : Metered where
  broker := (m.broker.allowTopicBytes c.now c.topic c.bytes).1
  admitted :=
    if (m.broker.allowTopicBytes c.now c.topic c.bytes).2 then c :: m.admitted else m.admitted

/-- When how much was let through for a topic. -/
def Metered.entries (m : Metered) (topic : Bytes) : List (Int × Nat) :=
  (m.admitted.filter fun c => c.topic = topic).map fun c => (c.now, c.bytes.toNat)

/-- A broker whose quota has just been configured. -/
def Metered.start (b : Broker) (quota : UInt64) : Metered where
  broker := b.configureTopicQuota quota

/-- When how much was asked for, by the calls for a topic that a window can let
    through. The others do not touch the window. -/
def asked (topic : Bytes) (quota : UInt64) (calls : List QuotaCall) : List (Int × Nat) :=
  (calls.filter fun c => c.topic = topic ∧ c.bytes ≤ quota).map fun c => (c.now, c.bytes.toNat)

/-! ## A call -/

/-- A call is no larger than the quota, and its window has room for it. -/
def Broker.HasRoom (b : Broker) (now : Int) (topic : Bytes) (bytes : UInt64) : Prop :=
  bytes ≤ b.topicProduceQuota ∧ (b.quotaWindow now topic).bytes ≤ b.topicProduceQuota - bytes

/-- The arithmetic of a call is that of numbers. The subtraction, if the call
    gets there, does not go below 0. The bytes are let through when they come to
    no more than the quota together with those of the window, and then the window
    has the sum. -/
structure Broker.QuotaExact (b : Broker) (now : Int) (topic : Bytes) (bytes : UInt64) : Prop where
  subtracted : bytes ≤ b.topicProduceQuota →
    (b.topicProduceQuota - bytes).toNat + bytes.toNat = b.topicProduceQuota.toNat
  decided : (b.allowTopicBytes now topic bytes).2
    = decide ((b.quotaWindow now topic).bytes.toNat + bytes.toNat ≤ b.topicProduceQuota.toNat)
  added : (b.allowTopicBytes now topic bytes).2 = true →
    ∃ window, (b.allowTopicBytes now topic bytes).1.topicQuotaWindows.lookup topic = some window ∧
      window.bytes.toNat = (b.quotaWindow now topic).bytes.toNat + bytes.toNat

/-- The window of a topic that has none is started. -/
theorem quotaWindow_none {b : Broker} {topic : Bytes}
    (h : b.topicQuotaWindows.lookup topic = none) (now : Int) :
    b.quotaWindow now topic = { bytes := 0, start := now } := by
  unfold Broker.quotaWindow
  rw [h]
  exact if_neg (by simp only [Option.getD_none, Int.sub_self]; decide)

/-- The window of a topic is started anew after a second. -/
theorem quotaWindow_some {b : Broker} {topic : Bytes} {window : TopicQuotaWindow}
    (h : b.topicQuotaWindows.lookup topic = some window) (now : Int) :
    b.quotaWindow now topic
      = if now - window.start ≥ quotaSecond then { bytes := 0, start := now } else window := by
  unfold Broker.quotaWindow
  rw [h]
  rfl

/-- What a call can do: let the bytes through, or refuse them with or without a
    look at the window. -/
theorem allowTopicBytes_cases {b : Broker} (hquota : b.topicProduceQuota ≠ 0) (now : Int)
    (topic : Bytes) (bytes : UInt64) :
    (b.HasRoom now topic bytes ∧
      b.allowTopicBytes now topic bytes
        = ({ b with
            topicQuotaWindows := b.topicQuotaWindows.insert topic
              { b.quotaWindow now topic with
                bytes := (b.quotaWindow now topic).bytes + bytes } }, true)) ∨
    (¬ b.HasRoom now topic bytes ∧
      (b.allowTopicBytes now topic bytes = (b, false) ∨
        b.allowTopicBytes now topic bytes
          = ({ b with
              topicQuotaWindows := b.topicQuotaWindows.insert topic (b.quotaWindow now topic) },
            false))) := by
  unfold Broker.allowTopicBytes
  rw [if_neg hquota]
  split
  · rename_i hlarge
    exact Or.inr ⟨fun hroom => absurd hroom.1 (UInt64.not_le.mpr hlarge), Or.inl rfl⟩
  · rename_i hsmall
    simp only
    split
    · rename_i hfull
      exact Or.inr ⟨fun hroom => absurd hroom.2 (UInt64.not_le.mpr hfull), Or.inr rfl⟩
    · rename_i hspace
      exact Or.inl ⟨⟨UInt64.not_lt.mp hsmall, UInt64.not_lt.mp hspace⟩, rfl⟩

/-- A call that is small enough is refused after a look at the window. -/
theorem allowTopicBytes_full {b : Broker} (hquota : b.topicProduceQuota ≠ 0) {now : Int}
    {topic : Bytes} {bytes : UInt64} (hsize : bytes ≤ b.topicProduceQuota)
    (hfull : ¬ b.HasRoom now topic bytes) :
    b.allowTopicBytes now topic bytes
      = ({ b with
          topicQuotaWindows := b.topicQuotaWindows.insert topic (b.quotaWindow now topic) },
        false) := by
  have hspace : (b.quotaWindow now topic).bytes > b.topicProduceQuota - bytes :=
    UInt64.not_le.mp fun hspace => hfull ⟨hsize, hspace⟩
  unfold Broker.allowTopicBytes
  rw [if_neg hquota, if_neg (UInt64.not_lt.mpr hsize)]
  exact if_pos hspace

/-- There is room for bytes, as numbers. -/
theorem hasRoom_iff (b : Broker) (now : Int) (topic : Bytes) (bytes : UInt64) :
    b.HasRoom now topic bytes ↔
      (b.quotaWindow now topic).bytes.toNat + bytes.toNat ≤ b.topicProduceQuota.toNat := by
  unfold Broker.HasRoom
  rw [UInt64.le_iff_toNat_le, UInt64.le_iff_toNat_le]
  constructor
  · rintro ⟨hsize, hspace⟩
    rw [UInt64.toNat_sub_of_le _ _ (UInt64.le_iff_toNat_le.mpr hsize)] at hspace
    omega
  · intro hle
    have hsize : bytes.toNat ≤ b.topicProduceQuota.toNat := by omega
    rw [UInt64.toNat_sub_of_le _ _ (UInt64.le_iff_toNat_le.mpr hsize)]
    omega

/-- Bytes that there is room for are added without a loss. -/
theorem HasRoom.toNat_add {b : Broker} {now : Int} {topic : Bytes} {bytes : UInt64}
    (h : b.HasRoom now topic bytes) :
    ((b.quotaWindow now topic).bytes + bytes).toNat
      = (b.quotaWindow now topic).bytes.toNat + bytes.toNat := by
  have hle := (hasRoom_iff _ _ _ _).mp h
  have hquota := b.topicProduceQuota.toNat_lt
  rw [UInt64.toNat_add, Nat.mod_eq_of_lt (by omega)]

/-- The arithmetic of a call is that of numbers. -/
theorem quotaExact {b : Broker} (hquota : b.topicProduceQuota ≠ 0) (now : Int) (topic : Bytes)
    (bytes : UInt64) : b.QuotaExact now topic bytes := by
  have hsubtracted : bytes ≤ b.topicProduceQuota →
      (b.topicProduceQuota - bytes).toNat + bytes.toNat = b.topicProduceQuota.toNat := by
    intro hsize
    rw [UInt64.toNat_sub_of_le _ _ hsize]
    exact Nat.sub_add_cancel (UInt64.le_iff_toNat_le.mp hsize)
  rcases allowTopicBytes_cases hquota now topic bytes with ⟨hroom, hcall⟩ | ⟨hfull, hcall⟩
  · refine ⟨hsubtracted, ?_, fun _ => ?_⟩
    · rw [hcall]
      exact (decide_eq_true ((hasRoom_iff _ _ _ _).mp hroom)).symm
    · rw [hcall]
      exact ⟨_, AList.lookup_insert b.topicQuotaWindows, HasRoom.toNat_add hroom⟩
  · have hrefused : (b.allowTopicBytes now topic bytes).2 = false := by
      rcases hcall with hcall | hcall <;> rw [hcall]
    refine ⟨hsubtracted, ?_, fun hadmitted => ?_⟩
    · rw [hrefused]
      exact (decide_eq_false fun hle => hfull ((hasRoom_iff _ _ _ _).mpr hle)).symm
    · rw [hrefused] at hadmitted
      cases hadmitted

/-! ## A run -/

namespace Metered

variable {m : Metered} {quota : UInt64} {topic : Bytes}

/-- The quota is set, and a window of the topic has not let through more. -/
structure Opened (m : Metered) (quota : UInt64) (topic : Bytes) (window : TopicQuotaWindow) :
    Prop where
  quota_eq : m.broker.topicProduceQuota = quota
  lookup_eq : m.broker.topicQuotaWindows.lookup topic = some window
  bytes_le : window.bytes ≤ quota

/-- No call changes the quota. -/
theorem call_quota (hquota : quota ≠ 0) (hset : m.broker.topicProduceQuota = quota)
    (c : QuotaCall) : (m.call c).broker.topicProduceQuota = quota := by
  unfold Metered.call
  rcases allowTopicBytes_cases (hset ▸ hquota) c.now c.topic c.bytes with
    ⟨_, hcall⟩ | ⟨_, hcall | hcall⟩ <;> rw [hcall] <;> exact hset

/-- A call for another topic, or one that is too large for any window, changes
    nothing for a topic. -/
theorem call_unasked (hquota : quota ≠ 0) (hset : m.broker.topicProduceQuota = quota)
    {c : QuotaCall} (h : ¬ (c.topic = topic ∧ c.bytes ≤ quota)) :
    (m.call c).broker.topicQuotaWindows.lookup topic
        = m.broker.topicQuotaWindows.lookup topic ∧
      (m.call c).entries topic = m.entries topic := by
  unfold Metered.entries Metered.call
  by_cases htopic : c.topic = topic
  · -- It is refused without a look at the window.
    have hlarge : c.bytes > quota := UInt64.not_le.mp fun hsize => h ⟨htopic, hsize⟩
    have hcall : m.broker.allowTopicBytes c.now c.topic c.bytes = (m.broker, false) := by
      unfold Broker.allowTopicBytes
      rw [hset, if_neg hquota, if_pos hlarge]
    rw [hcall]
    exact ⟨rfl, rfl⟩
  · constructor
    · rcases allowTopicBytes_cases (hset ▸ hquota) c.now c.topic c.bytes with
        ⟨_, hcall⟩ | ⟨_, hcall | hcall⟩ <;> rw [hcall]
      · exact AList.lookup_insert_ne fun heq => htopic heq.symm
      · exact AList.lookup_insert_ne fun heq => htopic heq.symm
    · split
      · rw [List.filter_cons_of_neg (by simpa using htopic)]
      · rfl

/-- Any other call for a topic is let through when its window has room for it,
    and leaves a window that has as much room less. -/
theorem call_asked (hquota : quota ≠ 0) (hset : m.broker.topicProduceQuota = quota)
    {c : QuotaCall} (htopic : c.topic = topic) (hsize : c.bytes ≤ quota)
    (hwithin : (m.broker.quotaWindow c.now topic).bytes ≤ quota) :
    ∃ window, (m.call c).Opened quota topic window ∧
      window.start = (m.broker.quotaWindow c.now topic).start ∧
      ∀ later, (takeRoom (quota.toNat - (m.broker.quotaWindow c.now topic).bytes.toNat)
            ((c.now, c.bytes.toNat) :: later)).reverse ++ m.entries topic
        = (takeRoom (quota.toNat - window.bytes.toNat) later).reverse
            ++ (m.call c).entries topic := by
  subst htopic
  have hle := UInt64.le_iff_toNat_le.mp hwithin
  have hroom_iff := hasRoom_iff m.broker c.now c.topic c.bytes
  rw [hset] at hroom_iff
  have hafter := call_quota hquota hset c
  rcases allowTopicBytes_cases (hset ▸ hquota) c.now c.topic c.bytes with
    ⟨hroom, hcall⟩ | ⟨hfull, hcall⟩
  · -- The bytes are let through.
    have hsum := HasRoom.toNat_add hroom
    have hbound := hroom_iff.mp hroom
    refine ⟨{ m.broker.quotaWindow c.now c.topic with
      bytes := (m.broker.quotaWindow c.now c.topic).bytes + c.bytes }, ⟨hafter, ?_, ?_⟩, rfl, ?_⟩
    · unfold Metered.call
      rw [hcall]
      exact AList.lookup_insert m.broker.topicQuotaWindows
    · rw [UInt64.le_iff_toNat_le, hsum]
      exact hbound
    · intro later
      have hentries : (m.call c).entries c.topic
          = (c.now, c.bytes.toNat) :: m.entries c.topic := by
        unfold Metered.entries Metered.call
        rw [hcall, if_pos rfl, List.filter_cons_of_pos (by simp), List.map_cons]
      rw [hentries, takeRoom, if_pos (by simp only; omega), hsum, Nat.sub_add_eq, List.reverse_cons,
        List.append_assoc, List.singleton_append]
  · -- They are refused, and the window is kept.
    have hrefused := allowTopicBytes_full (hset ▸ hquota) (hset ▸ hsize) hfull
    refine ⟨m.broker.quotaWindow c.now c.topic, ⟨hafter, ?_, hwithin⟩, rfl, ?_⟩
    · unfold Metered.call
      rw [hrefused]
      exact AList.lookup_insert m.broker.topicQuotaWindows
    · intro later
      have hentries : (m.call c).entries c.topic = m.entries c.topic := by
        unfold Metered.entries Metered.call
        rw [hrefused]
        rfl
      have hsmall : ¬ (c.bytes.toNat
          ≤ quota.toNat - (m.broker.quotaWindow c.now c.topic).bytes.toNat) :=
        fun hfits => hfull (hroom_iff.mpr (by omega))
      rw [hentries, takeRoom, if_neg hsmall]

theorem asked_cons_of_neg {c : QuotaCall} (h : ¬ (c.topic = topic ∧ c.bytes ≤ quota))
    (calls : List QuotaCall) : asked topic quota (c :: calls) = asked topic quota calls := by
  unfold asked
  rw [List.filter_cons_of_neg (by simpa using h)]

theorem asked_cons_of_pos {c : QuotaCall} (h : c.topic = topic ∧ c.bytes ≤ quota)
    (calls : List QuotaCall) :
    asked topic quota (c :: calls) = (c.now, c.bytes.toNat) :: asked topic quota calls := by
  unfold asked
  rw [List.filter_cons_of_pos (by simpa using h), List.map_cons]

/-- What a run lets through when a window of the topic is open: what that window
    and those behind it have room for. -/
theorem Opened.run_entries (hquota : quota ≠ 0) {window : TopicQuotaWindow}
    (h : m.Opened quota topic window) (calls : List QuotaCall) :
    (calls.foldl Metered.call m).entries topic
      = (takeRoom (quota.toNat - window.bytes.toNat)
            (cutWindows quotaSecond window.start (asked topic quota calls)).1
          ++ (cutWindows quotaSecond window.start (asked topic quota calls)).2.flatMap
            (takeRoom quota.toNat)).reverse ++ m.entries topic := by
  induction calls generalizing m window with
  | nil => rfl
  | cons c calls ih =>
      rw [List.foldl_cons]
      by_cases hasked : c.topic = topic ∧ c.bytes ≤ quota
      · have hwindow := quotaWindow_some h.lookup_eq c.now
        have hwithin : (m.broker.quotaWindow c.now topic).bytes ≤ quota := by
          rw [hwindow]
          split
          · exact UInt64.le_iff_toNat_le.mpr (Nat.zero_le _)
          · exact h.bytes_le
        rcases call_asked hquota h.quota_eq hasked.1 hasked.2 hwithin with
          ⟨window', hopened, hstart, hstep⟩
        rw [ih hopened, asked_cons_of_pos hasked, cutWindows, List.reverse_append,
          List.append_assoc, ← hstep, hstart]
        rw [hwindow]
        split
        · -- A new window begins with the call.
          rw [show (0 : UInt64).toNat = 0 from rfl, Nat.sub_zero, takeRoom, List.nil_append,
            List.flatMap_cons, List.reverse_append, List.append_assoc]
        · rw [List.reverse_append, List.append_assoc]
      · rcases call_unasked hquota h.quota_eq hasked with ⟨hlookup, hentries⟩
        rw [asked_cons_of_neg hasked, ← hentries]
        exact ih ⟨call_quota hquota h.quota_eq c, hlookup.trans h.lookup_eq, h.bytes_le⟩

/-- What a run lets through from the beginning: of every window what there is
    room for. -/
theorem run_entries (hquota : quota ≠ 0) (hset : m.broker.topicProduceQuota = quota)
    (hunopened : m.broker.topicQuotaWindows.lookup topic = none) (calls : List QuotaCall) :
    (calls.foldl Metered.call m).entries topic
      = ((windows quotaSecond (asked topic quota calls)).flatMap (takeRoom quota.toNat)).reverse
          ++ m.entries topic := by
  induction calls generalizing m with
  | nil => rfl
  | cons c calls ih =>
      rw [List.foldl_cons]
      by_cases hasked : c.topic = topic ∧ c.bytes ≤ quota
      · have hwindow := quotaWindow_none hunopened c.now
        rcases call_asked hquota hset hasked.1 hasked.2 (by
          rw [hwindow]; exact UInt64.le_iff_toNat_le.mpr (Nat.zero_le _)) with
          ⟨window', hopened, hstart, hstep⟩
        rw [hopened.run_entries hquota, asked_cons_of_pos hasked, windows, List.reverse_append,
          List.append_assoc, ← hstep, hstart, hwindow]
        rw [show (0 : UInt64).toNat = 0 from rfl, Nat.sub_zero, List.flatMap_cons,
          List.reverse_append, List.append_assoc]
      · rcases call_unasked hquota hset hasked with ⟨hlookup, hentries⟩
        rw [asked_cons_of_neg hasked, ← hentries]
        exact ih (call_quota hquota hset c) (hlookup.trans hunopened)

/-- Whatever is let through, the quota stays what it is. -/
theorem run_exact (hquota : quota ≠ 0) (hset : m.broker.topicProduceQuota = quota)
    (calls : List QuotaCall) :
    Along Metered.call (fun m c => m.broker.QuotaExact c.now c.topic c.bytes) m calls := by
  induction calls generalizing m with
  | nil => trivial
  | cons c calls ih => exact ⟨quotaExact (hset ▸ hquota) _ _ _, ih (call_quota hquota hset c)⟩

end Metered

theorem asked_ordered (topic : Bytes) (quota : UInt64) {calls : List QuotaCall}
    (h : calls.Pairwise fun c d => c.now ≤ d.now) :
    (asked topic quota calls).Pairwise fun e e' => e.1 ≤ e'.1 :=
  List.pairwise_map.mpr (h.sublist List.filter_sublist)

/-- In no run does the arithmetic of the quota wrap around. What it lets through
    within less than a second is at most the quota exactly when, of the windows
    into which the calls are cut, each fits in behind the one before it. -/
theorem topicQuota_iff (b : Broker) (quota : UInt64) (hquota : quota ≠ 0) (topic : Bytes)
    (calls : List QuotaCall) (hordered : calls.Pairwise fun c d => c.now ≤ d.now) :
    Along Metered.call (fun m c => m.broker.QuotaExact c.now c.topic c.bytes)
        (Metered.start b quota) calls ∧
      (BoundedWithin quotaSecond quota.toNat
          ((calls.foldl Metered.call (Metered.start b quota)).entries topic) ↔
        (windows quotaSecond (asked topic quota calls)).IsChain
          (FitsBehind quotaSecond quota.toNat)) := by
  refine ⟨Metered.run_exact hquota rfl calls, ?_⟩
  rcases windows_cut quotaSecond (asked_ordered topic quota hordered) (by decide) with
    ⟨earliest, hcut⟩
  rw [Metered.run_entries hquota rfl rfl, ← hcut.bounded_iff (by decide)]
  refine forall_congr' fun first => forall_congr' fun last => imp_congr_right fun _ => ?_
  rw [amountIn_append, amountIn_reverse]
  exact Iff.rfl

/-! ## Two windows of a topic -/

/-- Calls that use up a quota of 10 bytes in each of two seconds. -/
def steadyCalls : List QuotaCall :=
  [⟨0, [97], 6⟩, ⟨500000000, [97], 4⟩, ⟨700000000, [97], 1⟩, ⟨1500000000, [97], 10⟩]

theorem topicQuota_iff_steady :
    Along Metered.call (fun m c => m.broker.QuotaExact c.now c.topic c.bytes)
        (Metered.start (Broker.fresh {}) 10) steadyCalls ∧
      BoundedWithin quotaSecond 10
        ((steadyCalls.foldl Metered.call (Metered.start (Broker.fresh {}) 10)).entries [97]) :=
  have hquota := topicQuota_iff (Broker.fresh {}) 10 (by decide) [97] steadyCalls (by decide)
  ⟨hquota.1, hquota.2.mpr (by decide)⟩

/-- Calls at the end of one window and at the beginning of the next. -/
def burstCalls : List QuotaCall :=
  [⟨0, [97], 1⟩, ⟨999999999, [97], 9⟩, ⟨1000000000, [97], 10⟩]

/-- Within a nanosecond 19 bytes are let through, and the quota is 10. -/
theorem burst_admitted :
    ¬ ∀ (b : Broker) (quota : UInt64) (topic : Bytes) (calls : List QuotaCall), quota ≠ 0 →
      (calls.Pairwise fun c d => c.now ≤ d.now) →
      BoundedWithin quotaSecond quota.toNat
        ((calls.foldl Metered.call (Metered.start b quota)).entries topic) := by
  intro h
  have hburst := h (Broker.fresh {}) 10 [97] burstCalls (by decide) (by decide) 999999999
    1000000000 (by decide)
  revert hburst
  decide

end MqBroker
