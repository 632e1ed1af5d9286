import EnterpriseRag.Guardrails.SensitiveData
import EnterpriseRag.Rag.Evidence

/-!
# The claim checker

`find_unsupported_claims` flags the sentences of an answer that make an absolute claim in
words the chunks do not use. The word characters of `\b` and `str.lower` are those of the
Unicode database, parameters here.
-/

namespace EnterpriseRag

namespace ClaimChecker

open Regex

/-- `_ABSOLUTE_CLAIM_PATTERN`. -/
def absoluteClaimPattern (isWord : Char → Bool) : Regex :=
  let phrase := fun text : String => literal sameLetter text.toList
  seq (boundary isWord)
    (seq (alt (phrase "cannot") (alt (phrase "can not") (alt (phrase "can't") (alt (phrase "must")
        (alt (phrase "prohibited") (alt (phrase "forbidden") (alt (phrase "never")
        (alt (phrase "always") (alt (phrase "required to") (alt (phrase "not allowed")
        (phrase "not permitted")))))))))))
      (boundary isWord))

/-- `_SENTENCE_SPLIT_PATTERN`. -/
def sentenceSplitPattern : Regex :=
  seq (assert fun before _ => before.any fun c => c ∈ ['.', '!', '?']) (many isSpace 1)

/-- `_sentences`. -/
def sentences (text : String) : List (List Char) :=
  (sentenceSplitPattern.split (strip text.toList)).filter (· ≠ [])

/-- `_content_words`. -/
def contentWords (lower : List Char → List Char) (text : List Char) : List (List Char) :=
  let words := (many (fun c => ('a' ≤ c ∧ c ≤ 'z') || isDigitAscii c) 1).findAll (lower text)
  (words.filter fun word => 2 < word.length).eraseDups

local instance lawfulBEq_word : LawfulBEq (List Char) :=
  inferInstance

/-- The sentence makes an absolute claim in words of which the context has less than two
fifths, `_OVERLAP_FLOOR`. -/
def isUnsupported (isWord : Char → Bool) (lower : List Char → List Char)
    (contextWords : List (List Char)) (sentence : List Char) : Bool :=
  let words := contentWords lower sentence
  (absoluteClaimPattern isWord).found sentence && words ≠ [] &&
    5 * words.countP (· ∈ contextWords) < 2 * words.length

end ClaimChecker

/-- `find_unsupported_claims`. -/
def findUnsupportedClaims (isWord : Char → Bool) (lower : List Char → List Char)
    (answer : String) (chunks : List RetrievedChunk) : List String :=
  let contextWords := ClaimChecker.contentWords lower
    (" ".intercalate (chunks.map (·.text))).toList
  ((ClaimChecker.sentences answer).filter
    (ClaimChecker.isUnsupported isWord lower contextWords)).map fun sentence =>
      String.ofList (strip sentence)

example : findUnsupportedClaims Char.isAlphanum (·.map Char.toLower)
    "You must never call. Fees are due." [⟨"Fees are due.", "FEES.pdf", 1, none⟩] =
      ["You must never call."] := by
  decide +kernel

end EnterpriseRag
