import RailsLookup.Protocol.Shape

/-! # Calls

What a client may call by the name of a method, and the parameters that a request takes. A
method that is not listed is unknown.
-/

namespace RailsLookup

namespace Protocol

open Shape

def needs (name : String) (shape : Shape) : String × Bool × Shape := (name, true, shape)

def may (name : String) (shape : Shape) : String × Bool × Shape := (name, false, shape)

def position : Shape := record false [needs "line" natural, needs "character" natural]

def range : Shape := record false [needs "start" position, needs "end" position]

def document : Shape := record false [needs "uri" url]

def token : Shape := either integer text

def progress : List (String × Bool × Shape) := [may "workDoneToken" token]

def partially : List (String × Bool × Shape) := progress ++ [may "partialResultToken" token]

def place : List (String × Bool × Shape) :=
  [needs "textDocument" document, needs "position" position]

def atPlace (fields : List (String × Bool × Shape)) : Shape := record true (place ++ fields)

def ofDocument (fields : List (String × Bool × Shape)) : Shape :=
  record true (needs "textDocument" document :: fields)

def command : Shape :=
  record false [needs "title" text, needs "command" text, may "arguments" (list anything)]

def callItem : Shape :=
  record false [needs "name" text, needs "kind" integer, may "tags" (list integer),
    may "detail" text, needs "uri" url, needs "range" range, needs "selectionRange" range,
    may "data" anything]

def typeItem : Shape :=
  record false [needs "name" text, needs "kind" integer, may "tags" integer, may "detail" text,
    needs "uri" url, needs "range" range, needs "selectionRange" range, may "data" anything]

def diagnostic : Shape :=
  record false [needs "range" range, may "severity" integer, may "code" token,
    may "codeDescription" (record false [needs "href" url]), may "source" text,
    needs "message" text,
    may "relatedInformation" (list (record false
      [needs "location" (record false [needs "uri" url, needs "range" range]),
       needs "message" text])),
    may "tags" (list integer), may "data" anything]

def color : Shape :=
  record false [needs "red" number, needs "green" number, needs "blue" number,
    needs "alpha" number]

def formatting : Shape :=
  record true [needs "tabSize" natural, needs "insertSpaces" boolean,
    may "trimTrailingWhitespace" boolean, may "insertFinalNewline" boolean,
    may "trimFinalNewlines" boolean]

def object (fields : List (String × Bool × Shape)) : Shape := record true fields

def files (names : List String) : Shape :=
  record false [needs "files" (list (record false (names.map (needs · text))))]

/-- Requests that are recognised and not served, with the shapes of their parameters. -/
def unserved : List (String × Shape) :=
  [("textDocument/willSaveWaitUntil",
      record false [needs "textDocument" document, needs "reason" integer]),
   ("textDocument/declaration", atPlace partially),
   ("textDocument/typeDefinition", atPlace partially),
   ("textDocument/implementation", atPlace partially),
   ("textDocument/references",
      atPlace (partially ++
        [needs "context" (record false [needs "includeDeclaration" boolean])])),
   ("textDocument/prepareCallHierarchy", atPlace progress),
   ("callHierarchy/incomingCalls", record true (needs "item" callItem :: partially)),
   ("callHierarchy/outgoingCalls", record true (needs "item" callItem :: partially)),
   ("textDocument/prepareTypeHierarchy", atPlace progress),
   ("typeHierarchy/supertypes", record true (needs "item" typeItem :: partially)),
   ("typeHierarchy/subtypes", record true (needs "item" typeItem :: partially)),
   ("textDocument/documentHighlight", atPlace partially),
   ("textDocument/documentLink", ofDocument partially),
   ("documentLink/resolve",
      record false [needs "range" range, may "target" url, may "tooltip" text,
        may "data" anything]),
   ("textDocument/hover", atPlace progress),
   ("textDocument/codeLens", ofDocument partially),
   ("codeLens/resolve",
      record false [needs "range" range, may "command" command, may "data" anything]),
   ("textDocument/foldingRange", ofDocument partially),
   ("textDocument/selectionRange", ofDocument (needs "positions" (list position) :: partially)),
   ("textDocument/documentSymbol", ofDocument partially),
   ("textDocument/semanticTokens/full", ofDocument partially),
   ("textDocument/semanticTokens/full/delta",
      ofDocument (needs "previousResultId" text :: partially)),
   ("textDocument/semanticTokens/range", ofDocument (needs "range" range :: partially)),
   ("textDocument/inlineValue",
      ofDocument ([needs "range" range,
        needs "context"
          (record false [needs "frameId" integer, needs "stoppedLocation" range])] ++ progress)),
   ("textDocument/inlayHint", ofDocument (needs "range" range :: progress)),
   ("inlayHint/resolve",
      object [needs "position" position, needs "label" (either text (list anything))]),
   ("textDocument/moniker", atPlace partially),
   ("textDocument/completion",
      atPlace (partially ++ [may "context"
        (record false [needs "triggerKind" integer, may "triggerCharacter" text])])),
   ("completionItem/resolve", object [needs "label" text]),
   ("textDocument/diagnostic",
      ofDocument ([may "identifier" text, may "previousResultId" text] ++ partially)),
   ("workspace/diagnostic",
      record true ([may "identifier" text, needs "previousResultIds"
        (list (record false [needs "uri" url, needs "value" text]))] ++ partially)),
   ("textDocument/signatureHelp",
      atPlace (progress ++ [may "context"
        (object [needs "triggerKind" integer, may "triggerCharacter" text,
          needs "isRetrigger" boolean])])),
   ("textDocument/codeAction",
      ofDocument ([needs "range" range, needs "context"
        (record false [needs "diagnostics" (list diagnostic), may "only" (list text),
          may "triggerKind" integer])] ++ partially)),
   ("codeAction/resolve", object [needs "title" text, may "kind" text]),
   ("textDocument/documentColor", ofDocument partially),
   ("textDocument/colorPresentation",
      ofDocument ([needs "color" color, needs "range" range] ++ partially)),
   ("textDocument/formatting", ofDocument (needs "options" formatting :: progress)),
   ("textDocument/rangeFormatting",
      ofDocument ([needs "range" range, needs "options" formatting] ++ progress)),
   ("textDocument/onTypeFormatting",
      atPlace [needs "ch" text, needs "options" formatting]),
   ("textDocument/rename", atPlace (needs "newName" text :: progress)),
   ("textDocument/prepareRename", record false place),
   ("textDocument/linkedEditingRange", atPlace progress),
   ("workspace/symbol", record true (partially ++ [needs "query" text])),
   ("workspaceSymbol/resolve",
      object [needs "name" text, needs "kind" integer, needs "location" anything]),
   ("workspace/willCreateFiles", files ["uri"]),
   ("workspace/willRenameFiles", files ["oldUri", "newUri"]),
   ("workspace/willDeleteFiles", files ["uri"])]

/-- Notifications that are recognised and have no effect. -/
def unheeded : List String :=
  ["textDocument/willSave", "textDocument/didSave", "workspace/didChangeConfiguration",
   "workspace/didChangeWorkspaceFolders", "workspace/didCreateFiles", "workspace/didRenameFiles",
   "workspace/didDeleteFiles", "workspace/didChangeWatchedFiles"]

end Protocol

inductive Notification where
  | initialized
  | opened
  | changed
  | closed
  | unheeded
  deriving DecidableEq, Repr

inductive Question where
  | definition
  | command
  | unserved (shape : Shape)

inductive Call where
  | start
  | stop
  | exit
  | notification (n : Notification)
  | question (q : Question)
  | unknown

namespace Call

def table : List (String × Call) :=
  [("initialize", start),
   ("shutdown", stop),
   ("exit", exit),
   ("initialized", notification .initialized),
   ("textDocument/didOpen", notification .opened),
   ("textDocument/didChange", notification .changed),
   ("textDocument/didClose", notification .closed),
   ("textDocument/definition", question .definition),
   ("workspace/executeCommand", question .command)] ++
  Protocol.unheeded.map (·, notification .unheeded) ++
  Protocol.unserved.map fun (name, shape) => (name, question (.unserved shape))

def ofName (name : Text) : Call :=
  ((table.find? (·.1.toList == name)).map (·.2)).getD unknown

end Call

end RailsLookup
