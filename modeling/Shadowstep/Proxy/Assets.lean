import Shadowstep.Proxy.Response
import Shadowstep.Rust.Utf8

/-!
# Assets

`serve_asset` of `assets.rs`: a file is resolved, its metadata are read, and
then either the stored copy answers or the file is read and stored. Other
requests may run at each of the awaits between these, so a request is at one
of four stages.

* `AssetStage.next` — one stage to the next;
* `cacheLabel_assetResponse` — an asset's response says where it came from.
-/

namespace Shadowstep

open Rust

/-- What `assets.rs` calls of other crates. -/
class AssetCrates where
  /-- `hex::encode(Sha256::digest(content))` -/
  sha256Hex : Bytes → Text
  /-- `mime_guess::from_path(filename).first_or_octet_stream()` -/
  mime : Text → Text

def StatusCode.notFound : StatusCode := ⟨404, by decide⟩

/-- A text of the proxy's own as a header value. Tags are hexadecimal digits
in quotes and media types are tokens, so every byte of them is admitted. -/
def ownValue (text : Text) : HeaderValue :=
  ⟨(asBytes text).filter isValueByte, fun _ hb => List.of_mem_filter hb⟩

/-- The first 32 digits of the content's digest, in quotes. -/
def assetEtag [AssetCrates] (content : Bytes) : Text :=
  '"' :: (AssetCrates.sha256Hex content).take 32 ++ ['"']

/-- A request for a file. -/
structure AssetRequest where
  filename : Text
  headers : HeaderMap

/-- How an asset request came by its answer. -/
inductive AssetCause where
  /-- there is no such file, or it cannot be read -/
  | missing
  /-- from the store -/
  | stored
  /-- from the disk -/
  | read
deriving DecidableEq

/-- An answer to an asset request. -/
structure AssetGiven where
  cause : AssetCause
  response : HttpResponse

/-- `HttpResponse::NotFound().body("not found")`. -/
def assetNotFound : HttpResponse := ⟨.notFound, [], some (ascii "not found")⟩

/-- The response for a file, or 304 when the client has it. -/
def assetResponse [AssetCrates] (request : AssetRequest) (asset : Asset) (status : CacheStatus) :
    HttpResponse :=
  let notModified := ((request.headers.get header.ifNoneMatch).bind HeaderValue.toStr).any
    (· = asset.etag)
  let etag : HeaderMap := HeaderMap.append [] header.etag (ownValue asset.etag)
  if notModified then
    ⟨.notModified, etag.append cacheStatusName status.value.toValue, some []⟩
  else
    let headers := (etag.append header.cacheControl ⟨ascii "public, max-age=86400", by decide⟩).append
      cacheStatusName status.value.toValue
    ⟨.ok, headers.insert header.contentType (ownValue (AssetCrates.mime request.filename)),
      some asset.content⟩

/-- Where an asset request stands. -/
inductive AssetStage where
  /-- its file is being resolved -/
  | resolves
  /-- its cache lookup, with the file's metadata -/
  | looks (path : Path) (modified : SystemTime) (len : Nat)
  /-- the file is being read -/
  | reads (path : Path) (modified : SystemTime)
  | done

/-- What the file system answers, or the next poll. -/
inductive AssetStep where
  /-- `resolve_asset` and the metadata of the file, if all of it is there -/
  | resolved (file : Option (Path × SystemTime × Nat))
  | look
  | content (content : Option Bytes)
  /-- the client goes away -/
  | drop

/-- A stored copy counts while the file's length and modified time are
unchanged. -/
def Store.freshAsset (store : Store) (path : Path) (modified : SystemTime) (len : Nat) :
    Option Asset :=
  (store.asset path).filter fun asset => asset.modified = modified && asset.len = len

/-- What one step of an asset request comes to: its next stage, its answer,
and the content that it stores. -/
structure AssetOutcome where
  stage : AssetStage
  answer : Option AssetGiven
  stores : Option (Path × Bytes × SystemTime)

variable [AssetCrates]

/-- `asset_response`, from one await to the next. -/
def AssetStage.next (store : Store) (request : AssetRequest) :
    AssetStage → AssetStep → Option AssetOutcome
  | .resolves, .resolved none => some ⟨.done, some ⟨.missing, assetNotFound⟩, none⟩
  | .resolves, .resolved (some (path, modified, len)) =>
    some ⟨.looks path modified len, none, none⟩
  | .looks path modified len, .look =>
    match store.freshAsset path modified len with
    | some asset => some ⟨.done, some ⟨.stored, assetResponse request asset .hit⟩, none⟩
    | none => some ⟨.reads path modified, none, none⟩
  | .reads _ _, .content none => some ⟨.done, some ⟨.missing, assetNotFound⟩, none⟩
  | .reads path modified, .content (some content) =>
    let asset := (store.insertAsset path content (assetEtag content) modified).1
    some ⟨.done, some ⟨.read, assetResponse request asset .miss⟩, some (path, content, modified)⟩
  | .resolves, .drop | .looks .., .drop | .reads .., .drop => some ⟨.done, none, none⟩
  | _, _ => none

/-- The `X-Shadowstep-Cache` value of an asset's response. -/
def AssetCause.label : AssetCause → Option CacheStatus
  | .missing => none
  | .stored => some .hit
  | .read => some .miss

theorem cacheLabel_assetResponse (request : AssetRequest) (asset : Asset) (status : CacheStatus) :
    cacheLabel (assetResponse request asset status) = some status := by
  have different : header.etag ≠ cacheStatusName ∧ header.cacheControl ≠ cacheStatusName ∧
      cacheStatusName ≠ header.contentType := by decide
  refine cacheLabel_of_get ?_
  unfold assetResponse
  simp only
  split
  · simp [HeaderMap.get, HeaderMap.append, HeaderMap.getAll_cons, different]
  · simp [HeaderMap.get, HeaderMap.append, HeaderMap.getAll_insert, HeaderMap.getAll_cons,
      different]

/-- Every answer says how it came about. -/
theorem AssetStage.next_label {store : Store} {request : AssetRequest} {stage : AssetStage}
    {step : AssetStep} {outcome : AssetOutcome} {given : AssetGiven}
    (h : stage.next store request step = some outcome) (answered : outcome.answer = some given) :
    cacheLabel given.response = given.cause.label := by
  unfold next at h
  split at h
  case h_3 =>
    split at h
    all_goals
      obtain rfl := Option.some.inj h
      cases answered
    exact cacheLabel_assetResponse ..
  case h_9 => cases h
  all_goals
    obtain rfl := Option.some.inj h
    cases answered
  · rfl
  · rfl
  · exact cacheLabel_assetResponse ..

end Shadowstep
