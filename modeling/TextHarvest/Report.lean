import TextHarvest.Harvest

/-! # What a run prints

The wording of notices and summaries, plain or with the colours of a terminal.
-/

namespace TextHarvest

/-- How a piece of output looks on a terminal. -/
inductive Emphasis
  | bold
  | dimmed
  | green
  | boldGreen
deriving DecidableEq, Repr

/-- The number by which a terminal knows the emphasis. -/
def Emphasis.code : Emphasis → String
  | .bold => "1"
  | .dimmed => "2"
  | .green => "32"
  | .boldGreen => "1;32"

def emphasize (color : Bool) (emphasis : Emphasis) (text : String) : String :=
  if color then "\x1b[" ++ emphasis.code ++ "m" ++ text ++ "\x1b[0m" else text

/-- The word for one thing or for several. -/
def counted (count : Nat) (one several : String) : String :=
  toString count ++ " " ++ if count = 1 then one else several

def Notice.line (color : Bool) (notice : Notice) : String :=
  emphasize color .boldGreen "scanning" ++ " " ++ emphasize color .dimmed notice.kind.name ++ " " ++ notice.file ++
    " (" ++ toString notice.found ++ " texts, " ++ toString notice.added ++ " new)"

def Summary.lines (color : Bool) (summary : Summary) : List String :=
  let wrote := "Wrote " ++ counted summary.entryCount "entry" "entries" ++ " from " ++
    counted summary.fileCount "file" "files" ++ " to " ++ summary.target
  let mark := emphasize color .green "✓" ++ " " ++ emphasize color .green wrote
  if summary.duplicateCount = 0 then [mark]
  else
    [mark, "  " ++ emphasize color .bold "note:" ++ " " ++ toString summary.duplicateCount ++ " duplicate " ++
      (if summary.duplicateCount = 1 then "text" else "texts") ++ " skipped"]

/-- Lines as a text in which each of them is ended. -/
def unlines (lines : List String) : String :=
  String.join (lines.map (· ++ "\n"))

end TextHarvest
