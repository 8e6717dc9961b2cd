import Ddns.Api
import Ddns.Library.Bounded

/-! Responses over H3: bodies with a limit, statuses, and a request that is tried again. -/
namespace Ddns

/-- One mebibyte. -/
def maxLookupResponseBytes : ℕ := 1048576

/-- In milliseconds. -/
def lookupRequestTimeout : ℕ := 3000

def lookupRequestAttempts : ℕ := 3

def statusBodyLimit : ℕ := 4096

section Bodies

variable {E : Type}

inductive BodyFrame where
  | data (bytes : List UInt8)
  | trailers
  deriving DecidableEq

/-- What comes of a body before nobody waits for it any more: its frames, and whether it has come to
its end after them. -/
structure ResponseBody (E : Type) where
  frames : List (Except E BodyFrame)
  ended : Bool

inductive ReadBodyError (E : Type) where
  | body (source : E)
  | tooLarge
  deriving DecidableEq

/-- The loop of `read_body_limited`. It gives nothing while it still waits for a frame. -/
def readFrames (limit : ℕ) (ended : Bool) :
    List (Except E BodyFrame) → List UInt8 → Option (Except (ReadBodyError E) (List UInt8))
  | [], bytes => if ended then some (.ok bytes) else none
  | .error source :: _, _ => some (.error (.body source))
  | .ok .trailers :: frames, bytes => readFrames limit ended frames bytes
  | .ok (.data data) :: frames, bytes =>
    if limit - bytes.length < data.length then some (.error .tooLarge)
    else readFrames limit ended frames (bytes ++ data)

def readBodyLimited (body : ResponseBody E) (limit : ℕ) :
    Option (Except (ReadBodyError E) (List UInt8)) :=
  readFrames limit body.ended body.frames []

/-- The data in the frames, and their failures. -/
def dataPieces : List (Except E BodyFrame) → List (Except E (List UInt8))
  | [] => []
  | .error source :: frames => .error source :: dataPieces frames
  | .ok .trailers :: frames => dataPieces frames
  | .ok (.data data) :: frames => .ok data :: dataPieces frames

/-- The data of a body up to its first failure. -/
def ResponseBody.content (body : ResponseBody E) : List UInt8 :=
  (Bounded.sound (dataPieces body.frames)).flatten

/-- The first failure of a body. -/
def ResponseBody.failure (body : ResponseBody E) : Option E :=
  Bounded.failure (dataPieces body.frames)

theorem readFrames_eq_collect (limit : ℕ) (ended : Bool) (frames : List (Except E BodyFrame))
    (bytes : List UInt8) :
    readFrames limit ended frames bytes =
      match Bounded.collect limit ended (dataPieces frames) bytes with
      | .pending _ => none
      | .full => some (.error .tooLarge)
      | .failed source => some (.error (.body source))
      | .complete bytes => some (.ok bytes) := by
  induction frames generalizing bytes with
  | nil =>
    rw [readFrames, dataPieces, Bounded.collect]
    split <;> rfl
  | cons frame frames ih =>
    cases frame with
    | error source => rfl
    | ok frame =>
      cases frame with
      | trailers => exact ih bytes
      | data data =>
        rw [readFrames, dataPieces, Bounded.collect]
        split
        · rfl
        · exact ih (bytes ++ data)

/-- What is read depends on the data before the first failure alone: too much of it is an error,
then the failure is one, and else the body is read when it ends. -/
theorem readBodyLimited_eq (body : ResponseBody E) (limit : ℕ) :
    readBodyLimited body limit =
      if limit < body.content.length then some (.error .tooLarge)
      else
        match body.failure with
        | some source => some (.error (.body source))
        | none => if body.ended then some (.ok body.content) else none := by
  rw [readBodyLimited, readFrames_eq_collect, Bounded.collect_eq _ (Nat.zero_le limit),
    List.nil_append, ResponseBody.content, ResponseBody.failure]
  by_cases hfull : limit < (Bounded.sound (dataPieces body.frames)).flatten.length
  · rw [if_pos hfull, if_pos hfull]
  · rw [if_neg hfull, if_neg hfull]
    cases Bounded.failure (dataPieces body.frames) with
    | some source => rfl
    | none => cases body.ended <;> rfl

end Bodies

section Requests

variable {E : Type}

/-- What comes of a request before nobody waits for it any more. -/
inductive Reply (E : Type) where
  | silent
  | failed (source : E)
  | response (status : ℕ) (headers : HeaderMap) (body : ResponseBody E)

inductive H3RequestError (E : Type) where
  | request (source : E)
  | body (source : E)
  | timeout (timeout attempts : ℕ)
  | responseTooLarge (limit : ℕ)
  | status (status : ℕ)
  | noRecordFound
  deriving DecidableEq

def lookupResponse : Reply E → Option (Except (H3RequestError E) (HeaderMap × List UInt8))
  | .silent => none
  | .failed source => some (.error (.request source))
  | .response status headers body =>
    if status = 200 then
      (readBodyLimited body maxLookupResponseBytes).map fun out =>
        match out with
        | .error (.body source) => .error (.body source)
        | .error .tooLarge => .error (.responseTooLarge maxLookupResponseBytes)
        | .ok bytes => .ok (headers, bytes)
    else if status = 404 then some (.error .noRecordFound)
    else some (.error (.status status))

/-- Failures that are worth another attempt. -/
def H3RequestError.isTransient : H3RequestError E → Bool
  | .request _ => true
  | .body _ => true
  | _ => false

/-- The loop of `lookup_response_with_retry` from an attempt on, with the number of the attempt that
it returns in. It gives nothing where the loop would be left. -/
def lookupAttempts (replies : ℕ → Reply E) :
    (left attempt : ℕ) → Option (ℕ × Except (H3RequestError E) (HeaderMap × List UInt8))
  | 0, _ => none
  | left + 1, attempt =>
    match lookupResponse (replies attempt) with
    | some (.ok response) => some (attempt, .ok response)
    | some (.error error) =>
      if error.isTransient ∧ attempt < lookupRequestAttempts then
        lookupAttempts replies left (attempt + 1)
      else some (attempt, .error error)
    | none =>
      if attempt < lookupRequestAttempts then lookupAttempts replies left (attempt + 1)
      else some (attempt, .error (.timeout lookupRequestTimeout lookupRequestAttempts))

def lookupResponseWithRetry (replies : ℕ → Reply E) :
    Option (ℕ × Except (H3RequestError E) (HeaderMap × List UInt8)) :=
  lookupAttempts replies lookupRequestAttempts 1

/-- The attempt does not settle the lookup. -/
def Reply.Inconclusive (reply : Reply E) : Prop :=
  ∀ response, lookupResponse reply = some response → ∃ error, response = .error error ∧
    error.isTransient = true

/-- What the last attempt makes of a reply. -/
def Reply.conclude (reply : Reply E) : Except (H3RequestError E) (HeaderMap × List UInt8) :=
  (lookupResponse reply).getD (.error (.timeout lookupRequestTimeout lookupRequestAttempts))

theorem lookupAttempts_again {replies : ℕ → Reply E} {attempt : ℕ}
    (h : (replies attempt).Inconclusive) (hlt : attempt < lookupRequestAttempts) (left : ℕ) :
    lookupAttempts replies (left + 1) attempt = lookupAttempts replies left (attempt + 1) := by
  rw [lookupAttempts]
  cases hresponse : lookupResponse (replies attempt) with
  | none => exact if_pos hlt
  | some response =>
    obtain ⟨error, rfl, htransient⟩ := h response hresponse
    exact if_pos ⟨htransient, hlt⟩

theorem lookupAttempts_last {replies : ℕ → Reply E} {attempt : ℕ}
    (h : (replies attempt).Inconclusive → lookupRequestAttempts ≤ attempt) (left : ℕ) :
    lookupAttempts replies (left + 1) attempt = some (attempt, (replies attempt).conclude) := by
  rw [lookupAttempts, Reply.conclude]
  cases hresponse : lookupResponse (replies attempt) with
  | none =>
    have hinconclusive : (replies attempt).Inconclusive := by
      intro response hsome
      rw [hresponse] at hsome
      cases hsome
    exact if_neg (Nat.not_lt.mpr (h hinconclusive))
  | some response =>
    cases response with
    | ok response => rfl
    | error error =>
      refine if_neg ?_
      rintro ⟨htransient, hlt⟩
      have hinconclusive : (replies attempt).Inconclusive := by
        intro response hsome
        rw [hresponse] at hsome
        exact ⟨error, (Option.some.inj hsome).symm, htransient⟩
      exact absurd hlt (Nat.not_lt.mpr (h hinconclusive))

/-- The loop goes on as long as an attempt settles nothing and there is another one. -/
theorem lookupAttempts_spec (replies : ℕ → Reply E) {left attempt : ℕ}
    (hleft : left + attempt = lookupRequestAttempts + 1) (hpos : 0 < left) :
    ∃ last, attempt ≤ last ∧ last ≤ lookupRequestAttempts ∧
      (∀ i, attempt ≤ i → i < last → (replies i).Inconclusive) ∧
      (last < lookupRequestAttempts → ¬ (replies last).Inconclusive) ∧
      lookupAttempts replies left attempt = some (last, (replies last).conclude) := by
  induction left generalizing attempt with
  | zero => omega
  | succ left ih =>
    by_cases hagain : (replies attempt).Inconclusive ∧ attempt < lookupRequestAttempts
    · obtain ⟨hinconclusive, hlt⟩ := hagain
      obtain ⟨last, hfirst, hlast, hbefore, hsettled, hout⟩ :=
        @ih (attempt + 1) (by omega) (by omega)
      refine ⟨last, by omega, hlast, ?_, hsettled, ?_⟩
      · intro i hi hilast
        by_cases heq : i = attempt
        · rw [heq]
          exact hinconclusive
        · exact hbefore i (by omega) hilast
      · rw [lookupAttempts_again hinconclusive hlt]
        exact hout
    · have hstop : (replies attempt).Inconclusive → lookupRequestAttempts ≤ attempt := by
        intro hinconclusive
        by_contra hlt
        exact hagain ⟨hinconclusive, Nat.lt_of_not_le hlt⟩
      refine ⟨attempt, Nat.le_refl _, by omega, ?_, ?_, lookupAttempts_last hstop left⟩
      · intro i hi hilast
        omega
      · intro hlt hinconclusive
        exact hagain ⟨hinconclusive, hlt⟩

/-- A reply in terms of its status and the data of its body. -/
theorem conclude_response (status : ℕ) (headers : HeaderMap) (body : ResponseBody E) :
    (Reply.response status headers body).conclude =
      if status = 200 then
        if maxLookupResponseBytes < body.content.length then
          .error (.responseTooLarge maxLookupResponseBytes)
        else
          match body.failure with
          | some source => .error (.body source)
          | none =>
            if body.ended then .ok (headers, body.content)
            else .error (.timeout lookupRequestTimeout lookupRequestAttempts)
      else if status = 404 then .error .noRecordFound
      else .error (.status status) := by
  rw [Reply.conclude, lookupResponse]
  by_cases hok : status = 200
  · rw [if_pos hok, if_pos hok, readBodyLimited_eq]
    by_cases hfull : maxLookupResponseBytes < body.content.length
    · rw [if_pos hfull, if_pos hfull]
      rfl
    · rw [if_neg hfull, if_neg hfull]
      cases body.failure with
      | some source => rfl
      | none => cases body.ended <;> rfl
  · rw [if_neg hok, if_neg hok]
    split <;> rfl

/-- The body of a 200 was read whole. -/
structure Reply.Delivers (reply : Reply E) (headers : HeaderMap) (body : ResponseBody E) : Prop where
  response : reply = .response 200 headers body
  intact : body.failure = none
  fits : body.content.length ≤ maxLookupResponseBytes

theorem conclude_ok_iff {reply : Reply E} {headers : HeaderMap} {bytes : List UInt8} :
    reply.conclude = .ok (headers, bytes) ↔
      ∃ body, reply.Delivers headers body ∧ body.ended = true ∧ bytes = body.content := by
  constructor
  · intro h
    cases reply with
    | silent => cases h
    | failed source => cases h
    | response status headers' body =>
      rw [conclude_response] at h
      split at h
      · rename_i hstatus
        split at h
        · cases h
        · rename_i hfits
          split at h
          · cases h
          · rename_i hintact
            split at h
            · rename_i hended
              cases h
              exact ⟨body, ⟨by rw [hstatus], hintact, Nat.le_of_not_lt hfits⟩, hended, rfl⟩
            · cases h
      · split at h <;> cases h
  · rintro ⟨body, ⟨rfl, hintact, hfits⟩, hended, rfl⟩
    rw [conclude_response, if_pos rfl, if_neg (Nat.not_lt.mpr hfits), hintact]
    exact if_pos hended

theorem conclude_timeout_iff {reply : Reply E} :
    reply.conclude = .error (.timeout lookupRequestTimeout lookupRequestAttempts) ↔
      reply = .silent ∨ ∃ headers body, reply.Delivers headers body ∧ body.ended = false := by
  constructor
  · intro h
    cases reply with
    | silent => exact Or.inl rfl
    | failed source => cases h
    | response status headers body =>
      rw [conclude_response] at h
      split at h
      · rename_i hstatus
        split at h
        · cases h
        · rename_i hfits
          split at h
          · cases h
          · rename_i hintact
            split at h
            · cases h
            · rename_i hopen
              exact Or.inr ⟨headers, body, ⟨by rw [hstatus], hintact, Nat.le_of_not_lt hfits⟩,
                Bool.eq_false_of_not_eq_true hopen⟩
      · split at h <;> cases h
  · rintro (rfl | ⟨headers, body, ⟨rfl, hintact, hfits⟩, hopen⟩)
    · rfl
    · rw [conclude_response, if_pos rfl, if_neg (Nat.not_lt.mpr hfits), hintact]
      exact if_neg (by rw [hopen]; exact Bool.false_ne_true)

theorem conclude_noRecordFound_iff {reply : Reply E} :
    reply.conclude = .error .noRecordFound ↔ ∃ headers body, reply = .response 404 headers body := by
  constructor
  · intro h
    cases reply with
    | silent => cases h
    | failed source => cases h
    | response status headers body =>
      rw [conclude_response] at h
      split at h
      · split at h
        · cases h
        · split at h
          · cases h
          · split at h <;> cases h
      · split at h
        · rename_i hstatus
          exact ⟨headers, body, by rw [hstatus]⟩
        · cases h
  · rintro ⟨headers, body, rfl⟩
    rw [conclude_response]
    rfl

/-- A lookup always returns, in the first attempt that settles it or else in the third one, with
what that reply says: an answer for a body that ends after a 200 and within the limit, no record
for a 404, and a timeout for a reply that never ended. -/
theorem lookup_settled_within_three_attempts (replies : ℕ → Reply E) :
    ∃ last, 1 ≤ last ∧ last ≤ 3 ∧
      (∀ i, 1 ≤ i → i < last → (replies i).Inconclusive) ∧
      (last < 3 → ¬ (replies last).Inconclusive) ∧
      lookupResponseWithRetry replies = some (last, (replies last).conclude) ∧
      (∀ headers bytes, (replies last).conclude = .ok (headers, bytes) ↔
        ∃ body, (replies last).Delivers headers body ∧ body.ended = true ∧ bytes = body.content) ∧
      ((replies last).conclude = .error .noRecordFound ↔
        ∃ headers body, replies last = .response 404 headers body) ∧
      ((replies last).conclude = .error (.timeout lookupRequestTimeout lookupRequestAttempts) ↔
        replies last = .silent ∨
          ∃ headers body, (replies last).Delivers headers body ∧ body.ended = false) := by
  obtain ⟨last, hfirst, hlast, hbefore, hsettled, hout⟩ :=
    @lookupAttempts_spec E replies lookupRequestAttempts 1 rfl (by decide)
  exact ⟨last, hfirst, hlast, hbefore, hsettled, hout, fun _ _ => conclude_ok_iff,
    conclude_noRecordFound_iff, conclude_timeout_iff⟩

end Requests

end Ddns
