import RailsLookup.Text.Case

/-! # Inflection

Names are written in three ways: `BlogPost` for a constant, `blog_post` for a file and
`blog_posts` for a collection. The conversions are plain: no irregular plurals and no
acronyms.
-/

namespace RailsLookup.Inflection

/-- Lower-case the ASCII letters that follow `previous`, with an underscore before each capital
after a small letter or a digit. -/
def snakeAfter : Option Char → Text → Text
  | _, [] => []
  | previous, c :: rest =>
    let parted := c.isUpper && previous.any fun p => p.isLower || p.isDigit
    (if parted then ['_', c.toLower] else [c.toLower]) ++ snakeAfter (some c) rest

def snakeCase (name : Text) : Text := snakeAfter none name

/-- The singular form: `categories` becomes `category` and `posts` becomes `post`. -/
def singularize (word : Text) : Text :=
  if "ies".toList.isSuffixOf word then word.stripSuffix "ies".toList ++ ['y']
  else word.stripSuffix ['s']

def classify (snake : Text) : Text := (snake.splitOn '_').flatMap Text.capitalize

end RailsLookup.Inflection
