import Shadowstep.Cache.Sequence

/-!
# How much freshness a response is granted

`granted` is the lifetime that `storable` leaves a response, and `MayKeep`
is what it asks besides. Two numbers go in: the origin's `Age`, and the
`Date` that an `Expires` is measured from.

* an `Age` above `u64::MAX` does not parse and counts as 0, so an older
  response can be granted more: `older_is_no_fresher_iff` says exactly when
  it is not;
* a 304 without a `Date` keeps the stored one, so its `Expires` is measured
  from an older message: `expires_counts_from_receipt_iff`.
-/

namespace Shadowstep

open Rust

/-! ## Numerals as field values -/

def ageValue (age : Numeral) : HeaderValue := (VisibleText.ofNumeral age).toValue

/-- A response whose only `Age` is `age`. -/
def withAge (response : HeaderMap) (age : Numeral) : HeaderMap :=
  response.insert header.age (ageValue age)

/-- The age that a numeral is read as: one that does not fit in a `u64` counts
as none. -/
def countedAge (age : Numeral) : Nat :=
  if age.value < 2 ^ 64 then age.value * nanosPerSec else 0

theorem originAge_withAge (response : HeaderMap) (age : Numeral) :
    (originAge (withAge response age)).nanos = countedAge age := by
  have only : HeaderMap.get (withAge response age) header.age = some (ageValue age) := by
    rw [HeaderMap.get, withAge, HeaderMap.getAll_insert, if_pos rfl, List.head?_cons]
  have digits : (VisibleText.ofNumeral age).text = age.digits := rfl
  rw [originAge, only, Option.bind_some, ageValue, VisibleText.toStr_toValue, Option.bind_some,
    digits, Numeral.parseU64_digits, countedAge]
  split
  case isTrue small =>
    show (UInt64.ofNat age.value).toNat * nanosPerSec = age.value * nanosPerSec
    rw [UInt64.toNat_ofNat_of_lt' small]
  case isFalse => rfl

/-- `Age` is the only field whose value is replaced. -/
theorem getAll_withAge {name : HeaderName} (other : name ≠ header.age) (response : HeaderMap)
    (age : Numeral) : HeaderMap.getAll (withAge response age) name = response.getAll name := by
  rw [withAge, HeaderMap.getAll_insert, if_neg other]

/-- What `storable` asks of a response, apart from freshness. -/
structure MayKeep (requestPolicy : RequestPolicy) (status : StatusCode) (response : HeaderMap)
    (directives : Directives) : Prop where
  mayStore : requestPolicy.mayStore = true
  kept : storableResponseDirectives status response = some directives
  credentials : requestPolicy.hasCredentials = true → directives.has "public" = true
  names : (varyNames response).isSome = true

/-- Three fields are judged. -/
theorem mayKeep_congr {requestPolicy : RequestPolicy} {status : StatusCode}
    {left right : HeaderMap} {directives : Directives}
    (same : ∀ name ∈ [header.cacheControl, header.setCookie, header.vary],
      left.getAll name = right.getAll name) :
    MayKeep requestPolicy status left directives ↔
      MayKeep requestPolicy status right directives := by
  have setCookie : left.containsKey header.setCookie = right.containsKey header.setCookie := by
    rw [HeaderMap.containsKey_eq_getAll, same _ (by simp), HeaderMap.containsKey_eq_getAll]
  have kept : storableResponseDirectives status left = storableResponseDirectives status right := by
    rw [storableResponseDirectives, storableResponseDirectives, setCookie, same _ (by simp)]
  have names : varyNames left = varyNames right := varyNames_congr (same _ (by simp))
  constructor
  · rintro ⟨mayStore, h, credentials, named⟩
    exact ⟨mayStore, kept ▸ h, credentials, names ▸ named⟩
  · rintro ⟨mayStore, h, credentials, named⟩
    exact ⟨mayStore, kept.symm ▸ h, credentials, names.symm ▸ named⟩

/-- Writing an `Age` changes nothing else that is judged. -/
theorem mayKeep_withAge {requestPolicy : RequestPolicy} {status : StatusCode}
    {response : HeaderMap} {age : Numeral} {directives : Directives} :
    MayKeep requestPolicy status (withAge response age) directives ↔
      MayKeep requestPolicy status response directives :=
  mayKeep_congr fun name judged => getAll_withAge (by revert name; decide) response age

section

variable [HttpDate]

/-! ## The lifetime that is left -/

/-- The freshness that `storable` leaves a response it accepts. -/
def granted (requestPolicy : RequestPolicy) (request : HeaderMap) (status : StatusCode)
    (response : HeaderMap) (now : Clock) : Option Duration :=
  (storable requestPolicy request status response now).map fun accepted => accepted.1.ttl

/-- A response is accepted when its age leaves something of its lifetime. -/
theorem granted_eq_some {requestPolicy : RequestPolicy} {request : HeaderMap}
    {status : StatusCode} {response : HeaderMap} {now : Clock} {ttl : Duration} :
    granted requestPolicy request status response now = some ttl ↔
      0 < ttl.nanos ∧ ∃ directives lifetime, MayKeep requestPolicy status response directives ∧
        freshnessLifetime directives response now = some lifetime ∧
        (originAge response).nanos + ttl.nanos = lifetime.nanos := by
  constructor
  · intro h
    rcases Option.map_eq_some_iff.mp h with ⟨⟨policy, vary⟩, accepted, rfl⟩
    rcases storable_spec accepted with ⟨directives, lifetime, spec⟩
    refine ⟨spec.ttl_pos, directives, lifetime, ?_, spec.lifetime_eq, ?_⟩
    · exact ⟨spec.mayStore, spec.keepable.directives_eq, spec.credentials,
        Option.isSome_iff_exists.mpr ⟨_, spec.names⟩⟩
    · rw [← spec.initialAge]
      exact spec.age_add_ttl
  · rintro ⟨positive, directives, lifetime, keep, hlifetime, sum⟩
    rcases Option.isSome_iff_exists.mp keep.names with ⟨names, hnames⟩
    have left : lifetime.checkedSub (originAge response) = some ttl :=
      Duration.checkedSub_eq_some.mpr (by omega)
    have permitted : (requestPolicy.hasCredentials && !directives.has "public") = false := by
      cases h : requestPolicy.hasCredentials with
      | false => rfl
      | true => rw [keep.credentials h]; rfl
    simp only [granted, storable, keep.mayStore, Bool.not_true, Bool.false_eq_true, if_false,
      keep.kept, permitted, hnames, hlifetime, left, Option.bind_eq_bind, Option.bind_some,
      Duration.isZero_eq_false.mpr positive, Option.map_some]

/-! ## An older response -/

theorem freshnessLifetime_withAge (directives : Directives) (response : HeaderMap) (age : Numeral)
    (now : Clock) : freshnessLifetime directives (withAge response age) now =
      freshnessLifetime directives response now := by
  have expires : HeaderMap.get (withAge response age) header.expires =
      HeaderMap.get response header.expires := by
    rw [HeaderMap.get, getAll_withAge (by decide), HeaderMap.get]
  have date : HeaderMap.get (withAge response age) header.date =
      HeaderMap.get response header.date := by
    rw [HeaderMap.get, getAll_withAge (by decide), HeaderMap.get]
  rw [freshnessLifetime, freshnessLifetime, expires, date]

theorem granted_withAge {requestPolicy : RequestPolicy} {request : HeaderMap}
    {status : StatusCode} {response : HeaderMap} {now : Clock} {age : Numeral} {ttl : Duration} :
    granted requestPolicy request status (withAge response age) now = some ttl ↔
      0 < ttl.nanos ∧ ∃ directives lifetime, MayKeep requestPolicy status response directives ∧
        freshnessLifetime directives response now = some lifetime ∧
        countedAge age + ttl.nanos = lifetime.nanos := by
  simp only [granted_eq_some, mayKeep_withAge, freshnessLifetime_withAge, originAge_withAge]

/-- A response that is accepted at an age is accepted at a lesser one, with no
less freshness left. -/
def OlderIsNoFresher (requestPolicy : RequestPolicy) (request : HeaderMap) (status : StatusCode)
    (response : HeaderMap) (now : Clock) (younger older : Numeral) : Prop :=
  ∀ left, granted requestPolicy request status (withAge response older) now = some left →
    ∃ more, granted requestPolicy request status (withAge response younger) now = some more ∧
      left ≤ more

/-- Some of the response's freshness would be left if it came without `Age`. -/
def FreshWithoutAge (requestPolicy : RequestPolicy) (status : StatusCode) (response : HeaderMap)
    (now : Clock) : Prop :=
  ∃ directives lifetime, MayKeep requestPolicy status response directives ∧
    freshnessLifetime directives response now = some lifetime ∧ 0 < lifetime.nanos

omit [HttpDate] in
/-- Ages are read in order unless only the older one is too large. -/
theorem countedAge_le {younger older : Numeral} (ordered : younger.value ≤ older.value)
    (read : older.value < 2 ^ 64 ∨ younger.value = 0 ∨ 2 ^ 64 ≤ younger.value) :
    countedAge younger ≤ countedAge older := by
  have scaled : younger.value * nanosPerSec ≤ older.value * nanosPerSec :=
    Nat.mul_le_mul_right nanosPerSec ordered
  unfold countedAge
  rcases read with small | zero | large
  · rw [if_pos small, if_pos (by omega)]
    exact scaled
  · simp [zero]
  · rw [if_neg (by omega)]
    exact Nat.zero_le _

/-- An older response is granted more freshness exactly when its `Age` no
longer fits in a `u64`, and the younger one's does and is not 0. -/
theorem older_is_no_fresher_iff (requestPolicy : RequestPolicy) (request : HeaderMap)
    (status : StatusCode) (response : HeaderMap) (now : Clock) (younger older : Numeral)
    (ordered : younger.value ≤ older.value) :
    OlderIsNoFresher requestPolicy request status response now younger older ↔
      older.value < 2 ^ 64 ∨ younger.value = 0 ∨ 2 ^ 64 ≤ younger.value ∨
        ¬ FreshWithoutAge requestPolicy status response now := by
  constructor
  · intro noFresher
    by_contra wrong
    simp only [not_or, Nat.not_lt, Nat.not_le, not_not] at wrong
    rcases wrong with ⟨large, nonzero, fits, directives, lifetime, keep, hlifetime, positive⟩
    -- the older response is granted its whole lifetime
    have counted : countedAge older = 0 := if_neg (Nat.not_lt.mpr large)
    have whole : granted requestPolicy request status (withAge response older) now =
        some lifetime :=
      granted_withAge.mpr ⟨positive, directives, lifetime, keep, hlifetime, by omega⟩
    rcases noFresher lifetime whole with ⟨more, hmore, le⟩
    rcases granted_withAge.mp hmore with ⟨-, directives', lifetime', keep', hlifetime', sum⟩
    obtain rfl : directives' = directives := Option.some.inj (keep'.kept.symm.trans keep.kept)
    obtain rfl : lifetime' = lifetime := Option.some.inj (hlifetime'.symm.trans hlifetime)
    have spent : countedAge younger = younger.value * nanosPerSec := if_pos fits
    have some_spent : 0 < younger.value * nanosPerSec :=
      Nat.mul_pos (Nat.pos_of_ne_zero nonzero) (by decide)
    have := Duration.le_iff.mp le
    omega
  · intro condition left hleft
    rcases granted_withAge.mp hleft with ⟨positive, directives, lifetime, keep, hlifetime, sum⟩
    have fresh : FreshWithoutAge requestPolicy status response now :=
      ⟨directives, lifetime, keep, hlifetime, by omega⟩
    have read : older.value < 2 ^ 64 ∨ younger.value = 0 ∨ 2 ^ 64 ≤ younger.value := by
      tauto
    have ages := countedAge_le ordered read
    have inRange := lifetime.inRange
    refine ⟨⟨lifetime.nanos - countedAge younger, by omega⟩, ?_, ?_⟩
    · refine granted_withAge.mpr ⟨?_, directives, lifetime, keep, hlifetime, ?_⟩
      · show 0 < lifetime.nanos - countedAge younger
        omega
      · show countedAge younger + (lifetime.nanos - countedAge younger) = lifetime.nanos
        omega
    · show left.nanos ≤ lifetime.nanos - countedAge younger
      omega

/-! ## `Expires` in a 304 -/

omit [HttpDate] in
theorem getAll_freshenMap {name : HeaderName} (other : name ≠ header.age)
    (stored : StoredResponse) (update : Fields) (age : Option HeaderValue) :
    HeaderMap.getAll (Store.freshenMap stored update age) name =
      HeaderMap.getAll (updatedFields stored.headers update) name := by
  cases age with
  | none => rfl
  | some age => exact (HeaderMap.getAll_insert _ _ _ _).trans (if_neg other)

theorem freshen_ttl (store : Store) (entry : StaleEntry) (requestPolicy : RequestPolicy)
    (request : HeaderMap) (update : Fields) (age : Option HeaderValue) (now : Clock) :
    (store.freshen entry requestPolicy request update age now).1.ttl =
      min ((granted requestPolicy request entry.response.val.status
        (Store.freshenMap entry.response.val update age) now).getD Duration.zero) store.ttl := by
  rw [Store.freshen_returns, granted]
  cases storable requestPolicy request entry.response.val.status
    (Store.freshenMap entry.response.val update age) now <;> rfl

/-- The time until the `Expires` of a 304, which has passed when it is not a
date. -/
def untilExpires (update : Fields) (now : Clock) : Nat :=
  ((HeaderMap.get update header.expires).bind httpDate).elim 0 fun expires =>
    (expires.nanos - now.system.nanos).toNat

/-- A stored response as if its message had had no `Date`. -/
def StoredResponse.undated (stored : StoredResponse) : StoredResponse :=
  { stored with headers := stored.headers.filter fun field => field.1 ≠ header.date }

def StaleEntry.undated (entry : StaleEntry) : StaleEntry :=
  ⟨⟨entry.response.ptr, entry.response.val.undated⟩, entry.key⟩

omit [HttpDate] in
theorem getAll_undated (stored : StoredResponse) (name : HeaderName) :
    HeaderMap.getAll stored.undated.headers name =
      if name = header.date then [] else HeaderMap.getAll stored.headers name := by
  have filtered := HeaderMap.getAll_filter stored.headers (fun other => other ≠ header.date) name
  by_cases dated : name = header.date
  · simpa [StoredResponse.undated, dated] using filtered
  · simpa [StoredResponse.undated, dated] using filtered

omit [HttpDate] in
/-- Nothing but the `Date` is missing after the update either. -/
theorem getAll_freshenMap_undated {name : HeaderName} (other : name ≠ header.date)
    (stored : StoredResponse) (update : Fields) (age : Option HeaderValue) :
    HeaderMap.getAll (Store.freshenMap stored.undated update age) name =
      HeaderMap.getAll (Store.freshenMap stored update age) name := by
  have merged : HeaderMap.getAll (updatedFields stored.undated.headers update) name =
      HeaderMap.getAll (updatedFields stored.headers update) name := by
    rw [getAll_updatedFields, getAll_undated, if_neg other, getAll_updatedFields]
  cases age with
  | none => exact merged
  | some age => simp only [Store.freshenMap, HeaderMap.getAll_insert, merged]

omit [HttpDate] in
theorem originAge_undated (stored : StoredResponse) (update : Fields) (age : Option HeaderValue) :
    originAge (Store.freshenMap stored.undated update age) =
      originAge (Store.freshenMap stored update age) := by
  have same : HeaderMap.get (Store.freshenMap stored.undated update age) header.age =
      HeaderMap.get (Store.freshenMap stored update age) header.age := by
    rw [HeaderMap.get, getAll_freshenMap_undated (by decide), HeaderMap.get]
  rw [originAge, same, originAge]

/-- What `freshness_lifetime` makes of the fields that a 304 with an `Expires`
and no `Date` updates. -/
theorem freshnessLifetime_freshenMap {stored : StoredResponse} {update : Fields}
    {age : Option HeaderValue} {now : Clock} {directives : Directives}
    (expires : HeaderMap.containsKey update header.expires = true)
    (noDate : HeaderMap.containsKey update header.date = false)
    (undirected : ∀ name ∈ ["s-maxage", "max-age"], directives.has name = false) :
    freshnessLifetime directives (Store.freshenMap stored update age) now =
      some (((HeaderMap.get update header.expires).bind httpDate).elim Duration.zero fun expires =>
        (expires.durationSince (((HeaderMap.get stored.headers header.date).bind httpDate).getD
          now.system)).getD Duration.zero) := by
  have none_given : ∀ name ∈ ["s-maxage", "max-age"], directives.seconds name = none :=
    fun name hname => Directives.seconds_eq_none.mpr (undirected name hname)
  have hexpires : HeaderMap.get (Store.freshenMap stored update age) header.expires =
      HeaderMap.get update header.expires := by
    rw [HeaderMap.get, getAll_freshenMap (by decide), getAll_updatedFields, if_pos expires,
      HeaderMap.get]
  have hdate : HeaderMap.get (Store.freshenMap stored update age) header.date =
      HeaderMap.get stored.headers header.date := by
    rw [HeaderMap.get, getAll_freshenMap (by decide), getAll_updatedFields, if_neg (by simp [noDate]),
      HeaderMap.get]
  have present : ∃ value, HeaderMap.get update header.expires = some value := by
    rw [HeaderMap.containsKey_eq_getAll] at expires
    rw [HeaderMap.get]
    cases h : HeaderMap.getAll update header.expires with
    | nil => simp [h] at expires
    | cons value rest => exact ⟨value, rfl⟩
  rcases present with ⟨value, hvalue⟩
  rw [freshnessLifetime, none_given "s-maxage" (by simp), none_given "max-age" (by simp), hexpires,
    hdate, hvalue]
  cases hread : httpDate value <;> simp [hread]

/-- What the `Expires` of a 304 leaves when it is counted from the stored
`Date`, or else from when the 304 was received. -/
def leftUntilExpires (stored : StoredResponse) (update : Fields) (age : Option HeaderValue)
    (now : Clock) : Nat :=
  ((HeaderMap.get update header.expires).bind httpDate).elim 0 fun expires =>
    (expires.nanos - (((HeaderMap.get stored.headers header.date).bind httpDate).getD
        now.system).nanos).toNat -
      (originAge (Store.freshenMap stored update age)).nanos

omit [HttpDate] in
theorem get_undated (stored : StoredResponse) :
    HeaderMap.get stored.undated.headers header.date = none := by
  rw [HeaderMap.get, getAll_undated, if_pos rfl, List.head?_nil]

/-- Without a `Date`, the count starts at the receipt. -/
theorem leftUntilExpires_undated (stored : StoredResponse) (update : Fields)
    (age : Option HeaderValue) (now : Clock) :
    leftUntilExpires stored.undated update age now =
      untilExpires update now - (originAge (Store.freshenMap stored update age)).nanos := by
  rw [leftUntilExpires, untilExpires, get_undated, originAge_undated]
  cases (HeaderMap.get update header.expires).bind httpDate <;> simp

/-- The lifetime of a response that may be kept after a 304 with an `Expires`
and no `Date`. -/
theorem granted_freshenMap {requestPolicy : RequestPolicy} {request : HeaderMap}
    {status : StatusCode} {stored : StoredResponse} {update : Fields} {age : Option HeaderValue}
    {now : Clock} (expires : HeaderMap.containsKey update header.expires = true)
    (noDate : HeaderMap.containsKey update header.date = false)
    (undirected : ∀ name ∈ ["s-maxage", "max-age"],
      (Directives.parse (HeaderMap.getAll (Store.freshenMap stored update age)
        header.cacheControl)).has name = false) {directives : Directives}
    (keep : MayKeep requestPolicy status (Store.freshenMap stored update age) directives) :
    ((granted requestPolicy request status (Store.freshenMap stored update age) now).getD
      Duration.zero).nanos = leftUntilExpires stored update age now := by
  have lifetime {directives : Directives} (keep : MayKeep requestPolicy status
      (Store.freshenMap stored update age) directives) :=
    @freshnessLifetime_freshenMap _ stored update age now directives expires noDate (by
      rw [(storableResponseDirectives_spec keep.kept).parsed]
      exact undirected)
  have leaves : leftUntilExpires stored update age now =
      (((HeaderMap.get update header.expires).bind httpDate).elim Duration.zero fun expires =>
        (expires.durationSince (((HeaderMap.get stored.headers header.date).bind httpDate).getD
          now.system)).getD Duration.zero).nanos -
        (originAge (Store.freshenMap stored update age)).nanos := by
    rw [leftUntilExpires]
    cases (HeaderMap.get update header.expires).bind httpDate with
    | none => simp
    | some expiry => rw [Option.elim_some, Option.elim_some, SystemTime.durationSince_getD]
  rw [leaves]
  have measured := lifetime keep
  generalize ((HeaderMap.get update header.expires).bind httpDate).elim Duration.zero _ = whole
    at lifetime measured
  cases accepted : granted requestPolicy request status (Store.freshenMap stored update age) now with
  | some ttl =>
    rcases granted_eq_some.mp accepted with ⟨-, directives', whole', keep', hwhole, sum⟩
    obtain rfl := Option.some.inj ((lifetime keep').symm.trans hwhole)
    rw [Option.getD_some]
    omega
  | none =>
    -- had the age left something, the response would have been accepted
    by_contra more
    rw [Option.getD_none, Duration.zero_nanos] at more
    have inRange := whole.inRange
    let left : Duration :=
      ⟨whole.nanos - (originAge (Store.freshenMap stored update age)).nanos, by omega⟩
    have positive : 0 < left.nanos := by
      show 0 < whole.nanos - _
      omega
    have granting : granted requestPolicy request status (Store.freshenMap stored update age) now =
        some left := by
      refine granted_eq_some.mpr ⟨positive, directives, whole, keep, measured, ?_⟩
      show _ + (whole.nanos - _) = whole.nanos
      omega
    rw [accepted] at granting
    cases granting

/-- A response that may not be kept is granted nothing. -/
theorem granted_of_not_mayKeep {requestPolicy : RequestPolicy} {request : HeaderMap}
    {status : StatusCode} {response : HeaderMap} {now : Clock}
    (refused : ¬ ∃ directives, MayKeep requestPolicy status response directives) :
    granted requestPolicy request status response now = none := by
  cases accepted : granted requestPolicy request status response now with
  | none => rfl
  | some ttl =>
    rcases granted_eq_some.mp accepted with ⟨-, directives, -, keep, -⟩
    exact absurd ⟨directives, keep⟩ refused

theorem freshen_ttl_of_keep {store : Store} {entry : StaleEntry} {requestPolicy : RequestPolicy}
    {request : HeaderMap} {update : Fields} {age : Option HeaderValue} {now : Clock}
    (expires : HeaderMap.containsKey update header.expires = true)
    (noDate : HeaderMap.containsKey update header.date = false)
    (undirected : ∀ name ∈ ["s-maxage", "max-age"],
      (Directives.parse (HeaderMap.getAll (Store.freshenMap entry.response.val update age)
        header.cacheControl)).has name = false) {directives : Directives}
    (keep : MayKeep requestPolicy entry.response.val.status
      (Store.freshenMap entry.response.val update age) directives) :
    (store.freshen entry requestPolicy request update age now).1.ttl.nanos =
      min (leftUntilExpires entry.response.val update age now) store.ttl.nanos := by
  rw [freshen_ttl, Duration.min_nanos, granted_freshenMap expires noDate undirected keep]

theorem freshen_ttl_of_not_keep {store : Store} {entry : StaleEntry}
    {requestPolicy : RequestPolicy} {request : HeaderMap} {update : Fields}
    {age : Option HeaderValue} {now : Clock} (refused : ¬ ∃ directives, MayKeep requestPolicy
      entry.response.val.status (Store.freshenMap entry.response.val update age) directives) :
    (store.freshen entry requestPolicy request update age now).1.ttl.nanos = 0 := by
  rw [freshen_ttl, granted_of_not_mayKeep refused, Duration.min_nanos, Option.getD_none,
    Duration.zero_nanos, Nat.zero_min]

/-- Neither the response that `freshen` returns nor an entry that it stores is
fresh for longer than until the 304's `Expires`. -/
def FreshUntilExpires (store : Store) (entry : StaleEntry) (requestPolicy : RequestPolicy)
    (request : HeaderMap) (update : Fields) (age : Option HeaderValue) (now : Clock) : Prop :=
  let result := store.freshen entry requestPolicy request update age now
  result.1.ttl.nanos ≤ untilExpires update now ∧
    ∀ key arc, result.2.responseAt key = some arc → store.responseAt key ≠ some arc →
      arc.val.ttl.nanos ≤ untilExpires update now

/-- The stored `Date` plays no part in the lifetimes that `freshen` gives:
they are those it gives when the stored response has none. -/
def IgnoresStoredDate (store : Store) (entry : StaleEntry) (requestPolicy : RequestPolicy)
    (request : HeaderMap) (update : Fields) (age : Option HeaderValue) (now : Clock) : Prop :=
  let result := store.freshen entry requestPolicy request update age now
  let undated := store.freshen entry.undated requestPolicy request update age now
  result.1.ttl = undated.1.ttl ∧
    ∀ key arc, result.2.responseAt key = some arc → store.responseAt key ≠ some arc →
      arc.val.ttl = undated.1.ttl

/-- What holds of the response that `freshen` returns holds of what it stores. -/
theorem freshen_stored {store : Store} {entry : StaleEntry} {requestPolicy : RequestPolicy}
    {request : HeaderMap} {update : Fields} {age : Option HeaderValue} {now : Clock}
    {P : StoredResponse → Prop} (returned : P (store.freshen entry requestPolicy request update age
      now).1) (key : ResponseKey) (arc : Arc StoredResponse)
    (there : (store.freshen entry requestPolicy request update age now).2.responseAt key = some arc)
    (new : store.responseAt key ≠ some arc) : P arc.val := by
  rcases Store.freshen_responseAt there with old | same
  · exact absurd old new
  · rw [same]
    exact returned

/-- The stored `Date` is not the moment of the receipt, and the lifetime tells
which of the two it starts from: the earlier one leaves something until the
304's `Expires`, and the later one less than the store grants at most. -/
def StartsFromStoredDate (stored : StoredResponse) (update : Fields) (age : Option HeaderValue)
    (now : Clock) (cap : Duration) : Prop :=
  ∃ date expires, (HeaderMap.get stored.headers header.date).bind httpDate = some date ∧
    (HeaderMap.get update header.expires).bind httpDate = some expires ∧
    date.nanos ≠ now.system.nanos ∧
    min date.nanos now.system.nanos + (originAge (Store.freshenMap stored update age)).nanos <
      expires.nanos ∧
    0 < cap.nanos ∧
    expires.nanos < max date.nanos now.system.nanos +
      (originAge (Store.freshenMap stored update age)).nanos + cap.nanos

/-- These are the 304s for which the stored `Date` makes a difference. -/
theorem startsFromStoredDate_iff {stored : StoredResponse} {update : Fields}
    {age : Option HeaderValue} {now : Clock} {cap : Duration} :
    StartsFromStoredDate stored update age now cap ↔
      min (leftUntilExpires stored update age now) cap.nanos ≠
        min (leftUntilExpires stored.undated update age now) cap.nanos := by
  rw [leftUntilExpires_undated, leftUntilExpires, untilExpires]
  constructor
  · rintro ⟨date, expiry, hdate, hexpiry, differs, early, capped, late⟩
    rw [hexpiry, hdate, Option.getD_some, Option.elim_some, Option.elim_some]
    omega
  · intro differ
    cases hexpiry : (HeaderMap.get update header.expires).bind httpDate with
    | none => simp [hexpiry] at differ
    | some expiry =>
      cases hdate : (HeaderMap.get stored.headers header.date).bind httpDate with
      | none => simp [hexpiry, hdate] at differ
      | some date =>
        rw [hexpiry, hdate, Option.getD_some, Option.elim_some, Option.elim_some] at differ
        exact ⟨date, expiry, hdate, hexpiry, by omega, by omega, by omega, by omega⟩

/-- After a 304 with an `Expires` and no `Date`, the entry is kept fresh no
longer than until then, and as without a stored `Date`, exactly when its
lifetime does not start from one. -/
theorem expires_counts_from_receipt_iff (store : Store) (entry : StaleEntry)
    (requestPolicy : RequestPolicy) (request : HeaderMap) (update : Fields)
    (age : Option HeaderValue) (now : Clock)
    (expires : HeaderMap.containsKey update header.expires = true)
    (noDate : HeaderMap.containsKey update header.date = false)
    (undirected : ∀ name ∈ ["s-maxage", "max-age"],
      (Directives.parse (HeaderMap.getAll (updatedFields entry.response.val.headers update)
        header.cacheControl)).has name = false) :
    FreshUntilExpires store entry requestPolicy request update age now ∧
        IgnoresStoredDate store entry requestPolicy request update age now ↔
      ¬ (StartsFromStoredDate entry.response.val update age now store.ttl ∧
        ∃ directives, MayKeep requestPolicy entry.response.val.status
          (Store.freshenMap entry.response.val update age) directives) := by
  have same {name : HeaderName} (other : name ≠ header.date) :=
    getAll_freshenMap_undated other entry.response.val update age
  have keeps (directives : Directives) : MayKeep requestPolicy entry.response.val.status
      (Store.freshenMap entry.response.val.undated update age) directives ↔
        MayKeep requestPolicy entry.response.val.status
          (Store.freshenMap entry.response.val update age) directives :=
    mayKeep_congr fun name judged => same (by revert name; decide)
  rw [← getAll_freshenMap (by decide) entry.response.val update age] at undirected
  have undirected' := undirected
  rw [← same (by decide)] at undirected'
  -- both lifetimes, with the stored `Date` and without it
  have lifetimes {directives : Directives} (keep : MayKeep requestPolicy entry.response.val.status
      (Store.freshenMap entry.response.val update age) directives) :
      (store.freshen entry requestPolicy request update age now).1.ttl.nanos =
          min (leftUntilExpires entry.response.val update age now) store.ttl.nanos ∧
        (store.freshen entry.undated requestPolicy request update age now).1.ttl.nanos =
          min (leftUntilExpires entry.response.val.undated update age now) store.ttl.nanos :=
    ⟨freshen_ttl_of_keep expires noDate undirected keep,
      freshen_ttl_of_keep expires noDate undirected' ((keeps directives).mpr keep)⟩
  rw [startsFromStoredDate_iff]
  constructor
  · rintro ⟨-, ignores⟩ ⟨differs, directives, keep⟩
    rcases lifetimes keep with ⟨dated, undated⟩
    exact differs (dated.symm.trans ((congrArg Duration.nanos ignores.1).trans undated))
  · intro ignored
    have returned : (store.freshen entry requestPolicy request update age now).1.ttl.nanos =
          (store.freshen entry.undated requestPolicy request update age now).1.ttl.nanos ∧
        (store.freshen entry.undated requestPolicy request update age now).1.ttl.nanos ≤
          untilExpires update now := by
      by_cases kept : ∃ directives, MayKeep requestPolicy entry.response.val.status
          (Store.freshenMap entry.response.val update age) directives
      · rcases kept with ⟨directives, keep⟩
        rcases lifetimes keep with ⟨dated, undated⟩
        refine ⟨dated.trans (Eq.trans ?_ undated.symm), ?_⟩
        · by_contra differs
          exact ignored ⟨differs, directives, keep⟩
        · rw [undated]
          refine (Nat.min_le_left _ _).trans ?_
          exact (leftUntilExpires_undated ..).le.trans (Nat.sub_le _ _)
      · have refused : ¬ ∃ directives, MayKeep requestPolicy entry.undated.response.val.status
            (Store.freshenMap entry.undated.response.val update age) directives := by
          rintro ⟨directives, keep⟩
          exact kept ⟨directives, (keeps directives).mp keep⟩
        rw [freshen_ttl_of_not_keep kept, freshen_ttl_of_not_keep refused]
        exact ⟨rfl, Nat.zero_le _⟩
    have ttl := Duration.ext returned.1
    have bounded := returned.1.le.trans returned.2
    exact ⟨⟨bounded, freshen_stored (P := fun response => response.ttl.nanos ≤ _) bounded⟩,
      ttl, freshen_stored (P := fun response => response.ttl = _) ttl⟩

end

/-- A response with a minute of freshness. -/
def freshForMinute : HeaderMap := [(header.cacheControl, maxAgeMinute)]

theorem older_is_no_fresher_example : ∃ _ : HttpDate,
    OlderIsNoFresher (RequestPolicy.new .get []) [] .ok freshForMinute exampleClock
      (Numeral.ofNat 10) (Numeral.ofNat 30) := by
  let dates : HttpDate := ⟨fun _ => none⟩
  have ordered : (Numeral.ofNat 10).value ≤ (Numeral.ofNat 30).value := by
    simp only [Numeral.value_ofNat]
    decide
  refine ⟨dates, (older_is_no_fresher_iff _ _ _ _ _ _ _ ordered).mpr (.inl ?_)⟩
  rw [Numeral.value_ofNat]
  decide

/-- The response has used up its minute, and is fresh again at an age of 2^64
seconds. -/
theorem huge_age_counts_as_none : ∃ _ : HttpDate,
    (Numeral.ofNat 60).value ≤ (Numeral.ofNat (2 ^ 64)).value ∧
      ¬ OlderIsNoFresher (RequestPolicy.new .get []) [] .ok freshForMinute exampleClock
        (Numeral.ofNat 60) (Numeral.ofNat (2 ^ 64)) := by
  let dates : HttpDate := ⟨fun _ => none⟩
  refine ⟨dates, ?_, ?_⟩
  · simp only [Numeral.value_ofNat]
    decide
  · intro noFresher
    have reset : granted (RequestPolicy.new .get []) [] .ok
        (withAge freshForMinute (Numeral.ofNat (2 ^ 64))) exampleClock =
          some (Duration.fromSecs 60) := by decide +kernel
    have spent : granted (RequestPolicy.new .get []) [] .ok
        (withAge freshForMinute (Numeral.ofNat 60)) exampleClock = none := by decide +kernel
    rcases noFresher _ reset with ⟨more, hmore, -⟩
    rw [spent] at hmore
    cases hmore

/-! ## A stored `Date` -/

def oneMinute : HeaderValue := ⟨ascii "Thu, 01 Jan 1970 00:01:00 GMT", by decide⟩

def ninetySeconds : HeaderValue := ⟨ascii "Thu, 01 Jan 1970 00:01:30 GMT", by decide⟩

def twoMinutes : HeaderValue := ⟨ascii "Thu, 01 Jan 1970 00:02:00 GMT", by decide⟩

/-- The moments that the three dates name. -/
def readMinutes (text : Text) : Option SystemTime :=
  if text = "Thu, 01 Jan 1970 00:01:00 GMT".toList then
    some ⟨60 * nanosPerSec, by decide, by decide⟩
  else if text = "Thu, 01 Jan 1970 00:01:30 GMT".toList then
    some ⟨90 * nanosPerSec, by decide, by decide⟩
  else if text = "Thu, 01 Jan 1970 00:02:00 GMT".toList then
    some ⟨120 * nanosPerSec, by decide, by decide⟩
  else none

/-- A minute after 1970. -/
def firstMinute : Clock :=
  ⟨⟨60 * nanosPerSec, by decide⟩, ⟨60 * nanosPerSec, by decide, by decide⟩⟩

def hundredSeconds : Clock :=
  ⟨⟨100 * nanosPerSec, by decide⟩, ⟨100 * nanosPerSec, by decide, by decide⟩⟩

/-- A response with these fields is received after a minute and stored as it
is judged. -/
def storedWith [HttpDate] (headers : Fields) : Option (Arc StoredResponse) × Store :=
  let store := Store.new 1 (Duration.fromSecs 3600)
  match storable (RequestPolicy.new .get []) [] .ok headers firstMinute with
  | some (policy, vary) => store.insertResponse examplePrimary vary policy .ok headers [] firstMinute
  | none => (none, store)

def exampleKey : ResponseKey := ⟨examplePrimary, 0, []⟩

/-- Fresh for half a minute, and with a tag to be revalidated by. -/
def halfMinute : Fields := [(header.etag, tagA), (header.expires, ninetySeconds)]

theorem expires_counts_from_receipt_example : ∃ (_ : HttpDate) (arc : Arc StoredResponse)
    (store : Store), storedWith halfMinute = (some arc, store) ∧
      store.lookup examplePrimary [] none hundredSeconds.instant =
        some (.stale ⟨arc, exampleKey⟩) ∧
      FreshUntilExpires store ⟨arc, exampleKey⟩ (RequestPolicy.new .get []) []
        [(header.expires, twoMinutes)] none hundredSeconds ∧
      IgnoresStoredDate store ⟨arc, exampleKey⟩ (RequestPolicy.new .get []) []
        [(header.expires, twoMinutes)] none hundredSeconds := by
  let dates : HttpDate := ⟨readMinutes⟩
  refine ⟨dates, _, _, rfl, rfl, (expires_counts_from_receipt_iff _ _ _ _ _ _ _ (by decide)
    (by decide) (by decide)).mpr ?_⟩
  rintro ⟨⟨date, expiry, hdate, -⟩, -⟩
  cases hdate

/-- The 304 is received 20 seconds before its `Expires`, and gives the entry a
minute, since the stored `Date` is 40 seconds old. -/
theorem expires_counts_from_stored_date : ∃ (_ : HttpDate) (arc : Arc StoredResponse)
    (store : Store), storedWith ((header.date, oneMinute) :: halfMinute) = (some arc, store) ∧
      store.lookup examplePrimary [] none hundredSeconds.instant =
        some (.stale ⟨arc, exampleKey⟩) ∧
      arc.val.elapsed hundredSeconds.instant < entryTtl (.response arc) ∧
      ¬ FreshUntilExpires store ⟨arc, exampleKey⟩ (RequestPolicy.new .get []) []
        [(header.expires, twoMinutes)] none hundredSeconds := by
  let dates : HttpDate := ⟨readMinutes⟩
  refine ⟨dates, _, _, rfl, rfl, by decide +kernel, fun bounded => ?_⟩
  have late := bounded.1
  revert late
  decide +kernel

end Shadowstep
