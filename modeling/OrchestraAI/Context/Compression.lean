import OrchestraAI.Context.Items
import OrchestraAI.Library.ComparatorSort
import OrchestraAI.Library.Regex
import OrchestraAI.Library.TextUnits

/-! # Compression of texts

`extractPreserved` and `compressContent` of `intelligence/context-engine.js`, on code units and with
rational numbers for floating-point ones.
-/

namespace OrchestraAI.Context

open CodeUnits (Units)
open Text (isSpace)
open Regex (seq plus star opt oneOf inOrder boundary behind many)

def unitsOf (t : Text) : Units := CodeUnits.ofText t

/-- `\w`. -/
def isWord (c : Char) : Bool := c.isAlphanum || c = '_'

def unit (p : Char → Bool) (u : Nat) : Bool := p (Char.ofNat u)

def lit (s : String) : Regex Nat := .word (s.toList.map fun c => unit (· = c))

/-- A text in a pattern with the flag `i`. -/
def anyCase (s : String) : Regex Nat := .word (s.toList.map fun c => unit (·.toLower = c))

def wordBoundary : Regex Nat := boundary (unit isWord)

def digits : Regex Nat := plus (unit Char.isDigit)

/-- `[^\n.]{0,200}` behind a text. -/
def upToStop (s : String) : Regex Nat :=
  seq (anyCase s) (many false (unit fun c => c ≠ '\n' && c ≠ '.') 0 (some 200))

/-- `PRESERVE_PATTERNS`. -/
def preservePatterns : List (Regex Nat) :=
  [inOrder [plus (unit fun c => c.isAlphanum || c ∈ ['_', '.', '/', '-']), lit ".",
      oneOf (["ts", "tsx", "js", "jsx", "json", "md", "py", "go", "rs", "java", "rb", "php", "css",
        "html"].map lit), opt (seq (lit ":") digits)],
    inOrder [wordBoundary, anyCase "line ", digits, wordBoundary],
    inOrder [wordBoundary,
      oneOf (["function", "class", "const", "let", "var", "def", "fn"].map lit), lit " ",
      .one (unit fun c => c.isAlpha || c ∈ ['_', '$']), star (unit fun c => isWord c || c = '$')],
    inOrder [wordBoundary, digits, lit ".", digits, lit ".", digits, wordBoundary],
    inOrder [wordBoundary, digits, lit " ",
      oneOf [anyCase "passed", anyCase "failed", seq (anyCase "error") (opt (anyCase "s")),
        seq (anyCase "warning") (opt (anyCase "s"))], wordBoundary],
    inOrder [anyCase "error", .one (unit fun c => c = ':' || isSpace c),
      many false (unit (· ≠ '\n')) 0 (some 200)],
    oneOf (["do not ", "never ", "must not ", "required"].map upToStop)]

def trim (t : Units) : Units := Text.trimBy (unit isSpace) t

def extractPreserved (text : Units) : List Units :=
  ((preservePatterns.flatMap fun re => (re.found text).map fun m => trim m.taken).take 40).eraseDups

/-- What lies between the matches of `/(?<=[.!?])\s+/`. -/
def sentencesOf (text : Units) : List Units :=
  (((seq (behind (unit (· ∈ ['.', '!', '?']))) (plus (unit isSpace))).split text).map trim).filter
    (· ≠ [])

/-- `estimateTokensFor`. -/
def estimateTokensFor (content : Units) : Nat := (content.length + 3) / 4

def pickWithin (budget : ℚ) : Nat → List Units → List Units
  | _, [] => []
  | used, s :: rest =>
    if budget < used + estimateTokensFor s then pickWithin budget used rest
    else s :: pickWithin budget (used + estimateTokensFor s) rest

def pickSentences (query : Text) (budget : ℚ) (text : Units) : List Units :=
  let sentences := sentencesOf text
  let overlap (s : Units) : ℚ := if query = [] then 0 else lexicalOverlap query (s.map Char.ofNat)
  let scored := ComparatorSort.sortBy
    (fun a b => (compare (overlap b) (overlap a)).then (compare a.length b.length)) sentences
  ComparatorSort.sortBy (fun a b => compare (sentences.idxOf a) (sentences.idxOf b))
    (pickWithin budget 0 scored)

structure CompressOptions where
  targetTokens : Option ℚ
  query : Text
  taskText : Text
  strategy : Text

/-- Where a text is left as it is, only the number of its spans is told. -/
inductive Preserved
  | count (n : Nat)
  | spans (spans : List Units)

/-- `preserved || []`, where it is a list. -/
def Preserved.list : Preserved → List Units
  | count _ => []
  | spans list => list

structure Compression where
  originalContent : Units
  compressedContent : Units
  originalTokens : Nat
  compressedTokens : Nat
  compressionRatio : ℚ
  method : String
  confidence : ℚ
  informationLossRisk : ℚ
  preserved : Preserved

namespace CompressOptions

variable (opts : CompressOptions)

/-- `Math.max(16, Number(opts.targetTokens) || Math.floor(originalTokens * 0.4))`. -/
def target (originalTokens : Nat) : ℚ :=
  max 16 ((opts.targetTokens.filter (· ≠ 0)).getD ((originalTokens * 2 / 5 : Nat) : ℚ))

def chosenStrategy : String := String.ofList (textOr opts.strategy "structured".toList)

def limit (originalTokens : Nat) : Nat := ⌊max 128 (opts.target originalTokens * 4 + 512)⌋.toNat

def label : Units := if opts.chosenStrategy = "structured" then unitsOf "Summary:\n".toList else []

end CompressOptions

def spanLine (span : Units) : Units := unitsOf "- ".toList ++ span

def headerOf (preserved : List Units) : Units :=
  if preserved = [] then []
  else
    unitsOf "Key facts preserved verbatim:\n".toList ++
      List.intercalate (unitsOf "\n".toList) (preserved.map spanLine) ++ unitsOf "\n\n".toList

/-- `text.slice(0, Math.max(64, budget * 4))`. -/
def startOf (text : Units) (budget : ℚ) : Units := text.take ⌊max 64 (budget * 4)⌋.toNat

def bodyOf (opts : CompressOptions) (text : Units) : Units :=
  let header := headerOf (extractPreserved text)
  let budget := max 32 (opts.target (estimateTokensFor text) - estimateTokensFor header)
  if opts.chosenStrategy = "truncate" then startOf text budget
  else
    let body := List.intercalate (unitsOf " ".toList)
      (pickSentences (textOr opts.query opts.taskText) budget text)
    if body = [] then startOf text budget else body

def compressContent (text : Units) (opts : CompressOptions) : Compression :=
  let originalTokens := estimateTokensFor text
  let preserved := extractPreserved text
  if (originalTokens : ℚ) ≤ opts.target originalTokens then
    { originalContent := text, compressedContent := text
      originalTokens, compressedTokens := originalTokens
      compressionRatio := 1, method := "none", confidence := 1
      informationLossRisk := 0, preserved := .count preserved.length }
  else
    let compressedContent :=
      (headerOf preserved ++ opts.label ++ bodyOf opts text).take (opts.limit originalTokens)
    let compressedTokens := estimateTokensFor compressedContent
    let ratio : ℚ := RoundedGrid.toGrid 1000 (compressedTokens / originalTokens)
    { originalContent := text, compressedContent
      originalTokens, compressedTokens
      compressionRatio := ratio
      method := if opts.chosenStrategy = "truncate" then "truncate" else "structured summary"
      confidence := if preserved = [] then 0.6 else 0.8
      informationLossRisk := if 0.8 < ratio then 0.2 else if 0.5 < ratio then 0.4 else 0.6
      preserved := .spans preserved }

end OrchestraAI.Context
