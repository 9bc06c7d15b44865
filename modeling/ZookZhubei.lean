import ZookZhubei.Mastership
import ZookZhubei.Standby
import ZookZhubei.LocalTimeout
import ZookZhubei.ElectionLoop
import ZookZhubei.Sessions
import ZookZhubei.Takeover
import ZookZhubei.Presence
import ZookZhubei.Yield
import ZookZhubei.Expiry
import ZookZhubei.Callbacks
import ZookZhubei.Lifetime
import ZookZhubei.Watcher
import ZookZhubei.NodeData
import ZookZhubei.Paths
import ZookZhubei.Filename
import ZookZhubei.Handshake
import ZookZhubei.Completions
import ZookZhubei.Closing
import ZookZhubei.Watches
import ZookZhubei.Heartbeat
import ZookZhubei.Balance
import ZookZhubei.Chroot
import ZookZhubei.Replies
import ZookZhubei.Auth
