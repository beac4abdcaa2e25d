import Mathlib.Data.List.TakeWhile
import Meridian.Python.Text

/-!
# Continuation tokens

`config.continuation_token_keys` and the token functions of `authz.py`. A stored token is a version
and a keyed digest; which key a version names is read from the configuration when a token is
verified, so a token outlives every rotation that keeps its key.

* `verifyToken_hashToken`: what `hash_token` stored, `verify_token` accepts under every configuration
  that keeps the pairs.
* `eq_of_verifyToken`: it accepts no other token, when digests do not collide.

`hmac` is `hmac.new(secret, raw, hashlib.sha256).hexdigest()` of the UTF-8 bytes of its arguments.
-/

namespace Meridian.Intake

open Python

/-- `text.partition(sep)`; the second part is missing when there is no separator. -/
def partition (sep : Char) (t : Text) : Text × Option Text :=
  (t.takeWhile (· ≠ sep), (t.dropWhile (· ≠ sep)).tail?)

/-- The environment variables the tokens depend on. -/
structure Config where
  /-- `CONTINUATION_TOKEN_KEYS` -/
  tokenKeys : Text
  /-- `INTERNAL_SERVICE_TOKEN` -/
  serviceToken : Text
  /-- `ENVIRONMENT` -/
  environment : Text
  /-- `CONTINUATION_TOKEN_TTL_DAYS` -/
  ttlDays : Int
  deriving DecidableEq

/-- The version of the service token, which no configured key may claim. -/
def legacy : Text := "legacy".toList

/-- One entry of `CONTINUATION_TOKEN_KEYS`. -/
def tokenKey? (part : Text) : Option (Text × Text) :=
  match partition ':' (strip part) with
  | (_, none) => none
  | (ver, some secret) =>
    if strip ver ≠ [] ∧ strip ver ≠ legacy ∧ secret ≠ [] then some (strip ver, secret) else none

/-- `continuation_token_keys`, newest first. -/
def Config.continuationTokenKeys (c : Config) : List (Text × Text) :=
  (c.tokenKeys.splitOn ',').filterMap tokenKey?

/-- `_verify_keys` -/
def Config.verifyKeys (c : Config) : List (Text × Text) :=
  c.continuationTokenKeys ++ if c.serviceToken = [] then [] else [(legacy, c.serviceToken)]

/-- The stored form of a digest. -/
def tagged (ver digest : Text) : Text := ver ++ ':' :: digest

section Digests

variable (hmac : Text → Text → Text)

/-- `hash_token`; nothing when no key may issue a token, a `RuntimeError`. -/
def hashToken (c : Config) (raw : Text) : Option Text :=
  match c.continuationTokenKeys with
  | (ver, secret) :: _ => some (tagged ver (hmac secret raw))
  | [] =>
    if c.environment = "development".toList ∧ c.serviceToken ≠ [] then
      some (tagged legacy (hmac c.serviceToken raw))
    else none

/-- `verify_token` -/
def verifyToken (c : Config) (raw stored : Text) : Bool :=
  if raw = [] ∨ stored = [] then false
  else
    match partition ':' stored with
    | (ver, some digest) =>
      (c.verifyKeys.filter (·.1 = ver)).any fun key => hmac key.2 raw = digest
    | (_, none) => c.verifyKeys.any fun key => hmac key.2 raw = stored

/-- Digests of different tokens differ, under whatever keys. -/
def CollisionFree : Prop := ∀ {secret secret' raw raw'}, hmac secret raw = hmac secret' raw' → raw = raw'

end Digests

/-- `_expired`, at an instant. -/
def expired (expiresAt : Option Int) (now : Int) : Bool :=
  match expiresAt with
  | none => true
  | some t => t ≤ now

/-- A rotation: every pair of the old list is in the new one, and nothing else changes. -/
def Config.Rotates (c c' : Config) : Prop :=
  (∀ key ∈ c.continuationTokenKeys, key ∈ c'.continuationTokenKeys) ∧
    c'.serviceToken = c.serviceToken

instance (c c' : Config) : Decidable (c.Rotates c') :=
  inferInstanceAs (Decidable (_ ∧ _))

variable {hmac : Text → Text → Text} {c c' : Config} {raw raw' stored ver digest secret : Text}

theorem partition_tagged (h : ':' ∉ ver) : partition ':' (tagged ver digest) = (ver, some digest) := by
  have hall : ∀ x ∈ ver, decide (x ≠ ':') = true := by
    intro x hx
    refine decide_eq_true ?_
    rintro rfl
    exact h hx
  unfold partition tagged
  rw [List.takeWhile_append_of_pos hall, List.dropWhile_append_of_pos hall]
  simp

/-- A version has no colon, so the first colon of a stored token ends its version. -/
theorem Config.colon_not_mem (h : (ver, secret) ∈ c.verifyKeys) : ':' ∉ ver := by
  rcases List.mem_append.mp h with h | h
  · obtain ⟨part, -, hpart⟩ := List.mem_filterMap.mp h
    unfold tokenKey? at hpart
    split at hpart
    · cases hpart
    · rename_i v s hv
      split_ifs at hpart
      obtain ⟨rfl, -⟩ := Prod.mk.inj (Option.some.inj hpart)
      intro hmem
      have hv : v = (strip part).takeWhile (· ≠ ':') := (congrArg Prod.fst hv).symm
      rw [hv] at hmem
      have hcolon := List.mem_takeWhile_imp (mem_of_mem_strip hmem)
      simp at hcolon
  · split_ifs at h
    · cases h
    · obtain ⟨rfl, -⟩ := Prod.mk.inj (List.mem_singleton.mp h)
      exact by decide

theorem Config.Rotates.verifyKeys (h : c.Rotates c') {key : Text × Text} (hk : key ∈ c.verifyKeys) :
    key ∈ c'.verifyKeys := by
  unfold Config.verifyKeys at hk ⊢
  rw [h.2]
  rcases List.mem_append.mp hk with hk | hk
  · exact List.mem_append_left _ (h.1 key hk)
  · exact List.mem_append_right _ hk

/-- What is stored of a token is its digest under a key that verifies. -/
theorem exists_key (h : hashToken hmac c raw = some stored) :
    ∃ ver secret, (ver, secret) ∈ c.verifyKeys ∧ stored = tagged ver (hmac secret raw) := by
  unfold hashToken at h
  split at h
  · rename_i ver secret keys hkeys
    cases h
    refine ⟨ver, secret, List.mem_append_left _ ?_, rfl⟩
    rw [hkeys]
    exact List.mem_cons_self
  · split_ifs at h with hdev
    cases h
    refine ⟨legacy, c.serviceToken, List.mem_append_right _ ?_, rfl⟩
    rw [if_neg hdev.2]
    exact List.mem_singleton_self _

/-- A digest under a key that is still configured verifies. -/
theorem verifyToken_of_mem (h : (ver, secret) ∈ c.verifyKeys) (hraw : raw ≠ []) :
    verifyToken hmac c raw (tagged ver (hmac secret raw)) = true := by
  have hstored : tagged ver (hmac secret raw) ≠ [] := by simp [tagged]
  unfold verifyToken
  rw [if_neg (not_or.mpr ⟨hraw, hstored⟩), partition_tagged (Config.colon_not_mem h)]
  exact List.any_eq_true.mpr ⟨(ver, secret), by simp [h], by simp⟩

/-- **A token keeps verifying** under every configuration that keeps the pairs it was issued under. -/
theorem verifyToken_hashToken (h : hashToken hmac c raw = some stored) (hraw : raw ≠ [])
    (hkeys : ∀ key ∈ c.verifyKeys, key ∈ c'.verifyKeys) : verifyToken hmac c' raw stored = true := by
  obtain ⟨ver, secret, hkey, rfl⟩ := exists_key h
  exact verifyToken_of_mem (hkeys _ hkey) hraw

/-- **No other token verifies** against what is stored of one. -/
theorem eq_of_verifyToken (hfree : CollisionFree hmac) (h : hashToken hmac c raw = some stored)
    (hv : verifyToken hmac c' raw' stored = true) : raw' = raw := by
  obtain ⟨ver, secret, hkey, rfl⟩ := exists_key h
  unfold verifyToken at hv
  rw [partition_tagged (Config.colon_not_mem hkey)] at hv
  split_ifs at hv
  obtain ⟨key, -, hdigest⟩ := List.any_eq_true.mp hv
  exact hfree (of_decide_eq_true hdigest)

/-- The colon in what is stored is there, so an untagged digest is never what `hash_token` stored. -/
theorem hashToken_ne_nil (h : hashToken hmac c raw = some stored) : stored ≠ [] := by
  obtain ⟨ver, secret, -, rfl⟩ := exists_key h
  simp [tagged]

end Meridian.Intake
