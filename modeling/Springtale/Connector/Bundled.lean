import Springtale.Connector.Capability

/-! The actions that the bundled connectors declare. -/
namespace Springtale.Connector

namespace Bundled

/-- The declarations leave the destructive hint open. -/
def reads (name : String) : ActionDecl := ⟨name, true, none⟩

def mutates (name : String) : ActionDecl := ⟨name, false, none⟩

def bluesky : List ActionDecl :=
  [mutates "create_post", mutates "reply", mutates "like", mutates "repost",
    reads "discover_destinations"]

def browser : List ActionDecl :=
  [mutates "navigate", mutates "fill_form", mutates "click", reads "screenshot",
    reads "extract_text", mutates "evaluate", reads "get_html", reads "query_all",
    reads "wait_for_selector"]

def discord : List ActionDecl :=
  [mutates "send_message", mutates "send_embed", mutates "edit_message", mutates "delete_message",
    mutates "add_reaction", reads "discover_destinations"]

def filesystem : List ActionDecl := [reads "read_file", mutates "write_file", reads "list_dir"]

def github : List ActionDecl :=
  [mutates "create_issue", mutates "post_comment", reads "get_diff", mutates "create_branch",
    mutates "commit_file", mutates "create_pr"]

def http : List ActionDecl := [reads "get", mutates "post"]

def irc : List ActionDecl :=
  [mutates "send_message", mutates "join_channel", mutates "part_channel", mutates "set_topic",
    mutates "send_action", reads "discover_destinations"]

def kick : List ActionDecl := [mutates "send_chat", reads "get_channel", reads "get_stream"]

def nostr : List ActionDecl :=
  [mutates "publish_note", mutates "send_dm", mutates "send_message", mutates "react",
    mutates "reply", reads "discover_destinations"]

def opencode : List ActionDecl := [mutates "run_task", mutates "continue_session"]

def presearch : List ActionDecl := [reads "search", reads "scrape"]

def shell : List ActionDecl := [mutates "exec"]

def signal : List ActionDecl :=
  [mutates "send_message", mutates "send_group_message", mutates "set_disappearing_timer",
    reads "discover_destinations"]

def slack : List ActionDecl :=
  [mutates "send_message", mutates "send_blocks", mutates "send_thread_reply",
    mutates "edit_message", mutates "add_reaction", reads "discover_destinations"]

def telegram : List ActionDecl :=
  [mutates "send_message", mutates "send_photo", mutates "edit_message", mutates "delete_message",
    mutates "send_inline_keyboard", mutates "answer_callback_query", reads "onboard_url",
    reads "discover_destinations"]

end Bundled

def bundledConnectors : List (String × List ActionDecl) :=
  [("connector-bluesky", Bundled.bluesky), ("connector-browser", Bundled.browser),
    ("connector-discord", Bundled.discord), ("connector-filesystem", Bundled.filesystem),
    ("connector-github", Bundled.github), ("connector-http", Bundled.http),
    ("connector-irc", Bundled.irc), ("connector-kick", Bundled.kick),
    ("connector-nostr", Bundled.nostr), ("connector-opencode", Bundled.opencode),
    ("connector-presearch", Bundled.presearch), ("connector-shell", Bundled.shell),
    ("connector-signal", Bundled.signal), ("connector-slack", Bundled.slack),
    ("connector-telegram", Bundled.telegram)]

end Springtale.Connector
