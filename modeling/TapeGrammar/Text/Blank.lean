/-!
# White space

Two notions of blank are in use and must not be confused.  The characters with the Unicode property
`White_Space` are cut off at both ends of a text and separate the words of a command.  Inside a
descriptor line only the space and the tab separate (`TapeGrammar.Descriptor.Reader`).
-/

namespace TapeGrammar.Text

/-- The ranges of code points with the property `White_Space`, in increasing order. -/
def whiteSpaceRanges : List (Nat × Nat) :=
  [(0x9, 0xd), (0x20, 0x20), (0x85, 0x85), (0xa0, 0xa0), (0x1680, 0x1680), (0x2000, 0x200a),
    (0x2028, 0x2029), (0x202f, 0x202f), (0x205f, 0x205f), (0x3000, 0x3000)]

/-- Whether a character is white space. -/
def isWhiteSpace (c : Char) : Bool :=
  whiteSpaceRanges.any fun (first, last) => first ≤ c.toNat && c.toNat ≤ last

/-- Cuts white space off at both ends. -/
def trim (cs : List Char) : List Char :=
  ((cs.dropWhile isWhiteSpace).reverse.dropWhile isWhiteSpace).reverse

/-- The maximal runs of characters other than white space.  `run` holds what the run has had before
these characters, the latest character first. -/
def wordsFrom (run : List Char) : List Char → List (List Char)
  | [] => if run.isEmpty then [] else [run.reverse]
  | c :: cs =>
    if isWhiteSpace c then
      if run.isEmpty then wordsFrom [] cs else run.reverse :: wordsFrom [] cs
    else wordsFrom (c :: run) cs

/-- The words of a text: its maximal runs of characters other than white space. -/
def words (text : String) : List String :=
  (wordsFrom [] text.toList).map String.ofList

end TapeGrammar.Text
